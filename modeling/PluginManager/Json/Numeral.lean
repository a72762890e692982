import PluginManager.Json.Cursor

/-!
# JSON numbers

Whole numbers are exact as long as they fit into 64 bits.  Any other number is its leading digits,
rounded, times or divided by a rounded power of ten.

* `absorb`: the leading digits that fit into 64 bits.
* `scale?`: the power of ten, in steps where it is too large for one.
* `readNumber`: a number behind its sign.
-/

namespace PluginManager.Json

def wordLimit : Nat := Nat.pow 2 64

/-- Appends digits as long as the result has 64 bits, and tells how many were appended. -/
def absorb (n : Nat) : Bytes → Nat × Nat
  | [] => (n, 0)
  | b :: rest =>
    let next := n * 10 + (b.toNat - 0x30)
    if wordLimit ≤ next then (n, 0)
    else
      let (m, count) := absorb next rest
      (m, count + 1)

def powerOfTen (n : Nat) : Binary64 := (Binary64.ofNat? (Nat.pow 10 n)).getD (.zero false)

def greatestPower : Nat := 308

/-- None when the result is too large. -/
def scale? (x : Binary64) (exponent : Int) : Option Binary64 :=
  go 5 x exponent
where
  go : Nat → Binary64 → Int → Option Binary64
    | 0, x, _ => some x
    | tries + 1, x, exponent =>
      if exponent.natAbs ≤ greatestPower then
        if 0 ≤ exponent then x.mul? (powerOfTen exponent.natAbs)
        else x.div? (powerOfTen exponent.natAbs)
      else if x.isZero then some x
      else if 0 ≤ exponent then none
      else
        match x.div? (powerOfTen greatestPower) with
        | none => none
        | some y => go tries y (exponent + greatestPower)

def signed (negative : Bool) (x : Binary64) : Number :=
  .float (if negative then x.neg else x)

def ofParts (negative : Bool) (digits : Nat) (exponent : Int) (c : Cursor) : Read Json :=
  match (Binary64.ofNat? digits).bind (scale? · exponent) with
  | none => c.fail .numberRange
  | some x => .ok (.number (signed negative x), c)

def exponentLimit : Nat := Nat.pow 2 31

/-- The digits of an exponent; stops behind the digit with which it leaves 31 bits. -/
def exponentDigits (exp : Nat) (c : Cursor) : Option Nat × Cursor :=
  go exp c.rest c
where
  go (exp : Nat) : Bytes → Cursor → Option Nat × Cursor
    | [], c => (some exp, c)
    | b :: rest, c =>
      if !Cursor.isDigit b then (some exp, c)
      else
        let next := exp * 10 + (b.toNat - 0x30)
        if exponentLimit ≤ next then (none, c.advance) else go next rest c.advance

def exponentPart (negative : Bool) (digits : Nat) (before : Int) (c : Cursor) : Read Json :=
  let (down, c) :=
    match c.peek with
    | some 0x2b => (false, c.advance)
    | some 0x2d => (true, c.advance)
    | _ => (false, c)
  match c.peek with
  | none => c.fail .endInValue
  | some b =>
    if !Cursor.isDigit b then c.advance.fail .badNumber
    else
      match exponentDigits (b.toNat - 0x30) c.advance with
      | (some exp, c) => ofParts negative digits (if down then before - exp else before + exp) c
      | (none, c) =>
        if digits ≠ 0 && !down then c.fail .numberRange
        else .ok (.number (signed negative (.zero false)), c.dropWhile Cursor.isDigit)

def isExponentMark (b : Option UInt8) : Bool := b = some 0x65 || b = some 0x45

def fractionPart (negative : Bool) (digits : Nat) (before : Int) (c : Cursor) : Read Json :=
  let fraction := c.rest.takeWhile Cursor.isDigit
  let after := c.dropWhile Cursor.isDigit
  if fraction.isEmpty then
    if c.rest.isEmpty then c.failNext .endInValue else c.failNext .badNumber
  else
    let (digits, count) := absorb digits fraction
    if isExponentMark after.peek then exponentPart negative digits (before - count) after.advance
    else ofParts negative digits (before - count) after

def integer (negative : Bool) (n : Nat) : Json :=
  if !negative then .number (.integer n)
  else if n = 0 || Nat.pow 2 63 < n then
    .number (signed true ((Binary64.ofNat? n).getD (.zero false)))
  else .number (.integer (-n))

def readNumber (negative : Bool) (c : Cursor) : Read Json :=
  match c.peek with
  | none => c.fail .endInValue
  | some b =>
    if !Cursor.isDigit b then c.advance.fail .badNumber
    else
      let whole := if b = 0x30 then [b] else c.rest.takeWhile Cursor.isDigit
      let after := if b = 0x30 then c.advance else c.dropWhile Cursor.isDigit
      if b = 0x30 && (after.peek.any Cursor.isDigit) then after.failNext .badNumber
      else
        let (digits, count) := absorb 0 whole
        let dropped : Nat := whole.length - count
        if after.peek = some 0x2e then fractionPart negative digits dropped after.advance
        else if isExponentMark after.peek then exponentPart negative digits dropped after.advance
        else if 0 < dropped then ofParts negative digits dropped after
        else .ok (integer negative digits, after)

end PluginManager.Json
