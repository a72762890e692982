import PluginManager.Binary64.Shortest
import PluginManager.Toml.Text

/-!
# Numbers, dates and times in TOML text

A date or a time is read before a number, since it begins like one.

* `readInteger`, `readFloat`: numbers of 64 bits.
* `readMoment`: dates and times that exist.
* `readNumber`: any of them.
-/

namespace PluginManager.Toml

/-! ## Numbers -/

/-- Digits with single underscores between them. -/
def digits (isDigit : Char → Bool) : Scan (List Char) := fun cs =>
  match cs with
  | c :: rest => if isDigit c then some (more [c] rest) else none
  | [] => none
where
  more (done : List Char) : List Char → List Char × List Char
    | c :: d :: rest =>
      if isDigit c then more (c :: done) (d :: rest)
      else if c = '_' && isDigit d then more (d :: done) rest
      else (done.reverse, c :: d :: rest)
    | [c] => if isDigit c then ((c :: done).reverse, []) else (done.reverse, [c])
    | [] => (done.reverse, [])

def value (base : Nat) (ds : List Char) : Nat :=
  ds.foldl (fun n c => n * base + (hexValue? c).getD 0) 0

def sign : List Char → Option Bool × List Char
  | '+' :: rest => (some false, rest)
  | '-' :: rest => (some true, rest)
  | cs => (none, cs)

/-- Decimal digits without a leading zero. -/
def wholePart : Scan (List Char)
  | '0' :: rest => some (['0'], rest)
  | cs => digits isDigit cs

def integerOf (negative : Bool) (n : Nat) (rest : List Char) : Option (Toml × List Char) :=
  if negative then if n ≤ Nat.pow 2 63 then some (.integer (-n), rest) else none
  else if n < Nat.pow 2 63 then some (.integer n, rest) else none

def readInteger : Scan Toml := fun cs =>
  let inBase (base : Nat) (isDigit : Char → Bool) (cs : List Char) : Option (Toml × List Char) :=
    (digits isDigit cs).bind fun (ds, rest) => integerOf false (value base ds) rest
  match cs with
  | '0' :: 'x' :: rest => inBase 16 (fun c => (hexValue? c).isSome) rest
  | '0' :: 'o' :: rest => inBase 8 (fun c => '0' ≤ c && c ≤ '7') rest
  | '0' :: 'b' :: rest => inBase 2 (fun c => c = '0' || c = '1') rest
  | cs =>
    let (s, cs) := sign cs
    (wholePart cs).bind fun (ds, rest) => integerOf (s = some true) (value 10 ds) rest

def exponentPart : Scan Int := fun cs =>
  match cs with
  | 'e' :: rest | 'E' :: rest =>
    let (s, rest) := sign rest
    (digits isDigit rest).map fun (ds, rest) =>
      (if s = some true then -(value 10 ds : Int) else value 10 ds, rest)
  | _ => none

/-- Exponents beyond which every number is zero or too large. -/
def clampExponent (e : Int) : Int := max (-20000) (min e 20000)

def floatOf (negative : Bool) (ds : List Char) (exponent : Int) : Option Toml :=
  let n := value 10 ds
  let e := clampExponent exponent
  match Binary64.ofRatio? negative (n * Nat.pow 10 e.toNat) (Nat.pow 10 (-e).toNat) with
  | some x => some (.float (x.render .positional))
  | none => if negative then some (.float "-inf") else none

def readFloat : Scan Toml := fun cs =>
  let (s, cs) := sign cs
  let negative := s = some true
  match cs with
  | 'i' :: 'n' :: 'f' :: rest => some (.float (if negative then "-inf" else "inf"), rest)
  | 'n' :: 'a' :: 'n' :: rest => some (.float "NaN", rest)
  | _ =>
    match wholePart cs with
    | none => none
    | some (whole, rest) =>
      let finish (fraction : List Char) (exponent : Int) (rest : List Char) :=
        (floatOf negative (whole ++ fraction) (exponent - fraction.length)).map (·, rest)
      match rest with
      | '.' :: rest =>
        match digits isDigit rest with
        | none => none
        | some (fraction, rest) =>
          match exponentPart rest with
          | some (e, rest) => finish fraction e rest
          | none => finish fraction 0 rest
      | _ =>
        match exponentPart rest with
        | some (e, rest) => finish [] e rest
        | none => none

/-! ## Dates and times -/

def fixedDigits (count : Nat) (least greatest : Nat) : Scan Nat := fun cs =>
  let ds := cs.take count
  let n := value 10 ds
  if ds.length = count && ds.all isDigit && least ≤ n && n ≤ greatest then some (n, cs.drop count)
  else none

def daysIn (year month : Nat) : Nat :=
  match month with
  | 2 => if year % 4 = 0 && (year % 100 ≠ 0 || year % 400 = 0) then 29 else 28
  | 4 | 6 | 9 | 11 => 30
  | _ => 31

def expect (c : Char) : Scan Unit
  | d :: rest => if d = c then some ((), rest) else none
  | [] => none

def padded (width n : Nat) : List Char :=
  let ds := Nat.toDigits 10 n
  List.replicate (width - ds.length) '0' ++ ds

def readDate : Scan (List Char) := fun cs => do
  let (year, cs) ← fixedDigits 4 0 9999 cs
  let ((), cs) ← expect '-' cs
  let (month, cs) ← fixedDigits 2 1 12 cs
  let ((), cs) ← expect '-' cs
  let (day, cs) ← fixedDigits 2 1 31 cs
  if daysIn year month < day then none
  else some (padded 4 year ++ ['-'] ++ padded 2 month ++ ['-'] ++ padded 2 day, cs)

/-- The fraction of a second to nine places, without zeros at its end. -/
def fraction (cs : List Char) : List Char × List Char :=
  match cs with
  | '.' :: rest =>
    match rest.span isDigit with
    | ([], _) => ([], cs)
    | (ds, after) =>
      let shown := ((ds.take 9).reverse.dropWhile (· = '0')).reverse
      (if shown = [] then [] else '.' :: shown, after)
  | _ => ([], cs)

def readTime : Scan (List Char) := fun cs => do
  let (hour, cs) ← fixedDigits 2 0 23 cs
  let ((), cs) ← expect ':' cs
  let (minute, cs) ← fixedDigits 2 0 59 cs
  let ((), cs) ← expect ':' cs
  let (second, cs) ← fixedDigits 2 0 60 cs
  let (part, cs) := fraction cs
  some (padded 2 hour ++ [':'] ++ padded 2 minute ++ [':'] ++ padded 2 second ++ part, cs)

def readOffset : Scan (List Char) := fun cs =>
  match cs with
  | 'Z' :: rest | 'z' :: rest => some (['Z'], rest)
  | c :: rest =>
    if c = '+' || c = '-' then do
      let (hour, rest) ← fixedDigits 2 0 23 rest
      let ((), rest) ← expect ':' rest
      let (minute, rest) ← fixedDigits 2 0 59 rest
      let sign := if c = '-' && 0 < hour + minute then '-' else '+'
      some (sign :: padded 2 hour ++ [':'] ++ padded 2 minute, rest)
    else none
  | [] => none

/-- A date, a time, or both with or without an offset. -/
def readMoment : Scan Toml := fun cs =>
  match readDate cs with
  | none => (readTime cs).map fun (t, rest) => (.moment (String.ofList t), rest)
  | some (d, rest) =>
    let alone := some (Toml.moment (String.ofList d), rest)
    match rest with
    | c :: after =>
      if c = 'T' || c = 't' || c = ' ' then
        match readTime after with
        | none => alone
        | some (t, rest) =>
          match readOffset rest with
          | none => some (.moment (String.ofList (d ++ ['T'] ++ t)), rest)
          | some (o, rest) => some (.moment (String.ofList (d ++ ['T'] ++ t ++ o)), rest)
      else alone
    | [] => alone

def readNumber : Scan Toml := fun cs =>
  match readMoment cs with
  | some r => some r
  | none =>
    match readFloat cs with
    | some r => some r
    | none => readInteger cs

end PluginManager.Toml
