import PluginManager.Json.Numeral

/-!
# Reading JSON text

The strict grammar, with at most 127 arrays and objects inside each other.

* `readString`: escapes, pairs of surrogates, and plain bytes that are well-formed text.
* `Json.parse`: the value of a whole text.
-/

namespace PluginManager.Json

/-! ## Words -/

def readWord (value : Json) : Bytes → Cursor → Read Json
  | [], c => .ok (value, c)
  | b :: bs, c =>
    match c.peek with
    | none => c.fail .endInValue
    | some a => if a = b then readWord value bs c.advance else c.advance.fail .noIdent

/-! ## Strings -/

def hexValue? (b : UInt8) : Option Nat :=
  if Cursor.isDigit b then some (b.toNat - 0x30)
  else if 0x61 ≤ b && b ≤ 0x66 then some (b.toNat - 0x57)
  else if 0x41 ≤ b && b ≤ 0x46 then some (b.toNat - 0x37)
  else none

def hexEscape (c : Cursor) : Read Nat :=
  match c.rest with
  | p :: q :: r :: s :: _ =>
    let after := c.advance.advance.advance.advance
    match hexValue? p, hexValue? q, hexValue? r, hexValue? s with
    | some p, some q, some r, some s => .ok (((p * 16 + q) * 16 + r) * 16 + s, after)
    | _, _, _, _ => after.fail .badEscape
  | _ => (c.dropWhile fun _ => true).fail .endInString

/-- The second half of a pair of surrogates. -/
def lowSurrogate (c : Cursor) : Read Nat :=
  match c.peek with
  | none => c.fail .endInString
  | some b =>
    if b ≠ 0x5c then c.advance.fail .openSurrogate
    else
      let c := c.advance
      match c.peek with
      | none => c.fail .endInString
      | some b => if b ≠ 0x75 then c.advance.fail .openSurrogate else hexEscape c.advance

def codeEscape (c : Cursor) : Read Char :=
  match hexEscape c with
  | .error e => .error e
  | .ok (n, c) =>
    if 0xdc00 ≤ n && n ≤ 0xdfff then c.fail .loneSurrogate
    else if n < 0xd800 || 0xdbff < n then .ok (Char.ofNat n, c)
    else
      match lowSurrogate c with
      | .error e => .error e
      | .ok (m, c) =>
        if m < 0xdc00 || 0xdfff < m then c.fail .loneSurrogate
        else .ok (Char.ofNat ((n - 0xd800) * 1024 + (m - 0xdc00) + 0x10000), c)

def readEscape (c : Cursor) : Read Char :=
  match c.peek with
  | none => c.fail .endInString
  | some b =>
    let after := c.advance
    match b with
    | 0x22 => .ok ('"', after)
    | 0x5c => .ok ('\\', after)
    | 0x2f => .ok ('/', after)
    | 0x62 => .ok ('\x08', after)
    | 0x66 => .ok ('\x0c', after)
    | 0x6e => .ok ('\n', after)
    | 0x72 => .ok ('\r', after)
    | 0x74 => .ok ('\t', after)
    | 0x75 => codeEscape after
    | _ => after.fail .badEscape

/-- Bytes that stand for themselves in a string. -/
def isPlain (b : UInt8) : Bool := 0x20 ≤ b && b ≠ 0x22 && b ≠ 0x5c

/-- The characters of plain bytes; an error is at the first byte that is part of none. -/
def plainChars (run : Bytes) (c : Cursor) : Except SyntaxError (List Char) :=
  match Text.decode? run with
  | some s => .ok s.toList
  | none => (c.skip (Text.goodLength run + 1)).fail .badCodePoint

/-- The characters of a string up to its closing quote, after those read already. -/
def stringChars : Nat → List Char → Cursor → Read (List Char)
  | 0, _, c => c.fail .endInString
  | fuel + 1, done, c =>
    let run := c.rest.takeWhile isPlain
    let stop := c.skip run.length
    match stop.peek with
    | none => stop.fail .endInString
    | some b =>
      if b < 0x20 then stop.advance.fail .controlCharacter
      else
        match plainChars run c with
        | .error e => .error e
        | .ok chars =>
          if b = 0x22 then .ok (done ++ chars, stop.advance)
          else
            match readEscape stop.advance with
            | .error e => .error e
            | .ok (char, c) => stringChars fuel (done ++ chars ++ [char]) c

def readString (c : Cursor) : Read String :=
  (stringChars (c.rest.length + 1) [] c).map fun (chars, c) => (String.ofList chars, c)

/-! ## Values -/

/-- The items of an array behind its bracket, each read by `value`. -/
def readItems (value : Cursor → Read Json) : Nat → Bool → List Json → Cursor → Read Json
  | 0, _, _, c => c.fail .endInList
  | fuel + 1, first, done, c =>
    let c := c.skipBlanks
    match c.peek with
    | none => c.failNext .endInList
    | some 0x5d => .ok (.array done.reverse, c.advance)
    | some b =>
      let next (c : Cursor) : Read Json :=
        match value c with
        | .error e => .error e
        | .ok (v, c) => readItems value fuel false (v :: done) c
      if first then next c
      else if b ≠ 0x2c then c.failNext .noListEnd
      else
        let c := c.advance.skipBlanks
        match c.peek with
        | none => c.failNext .endInValue
        | some 0x5d => c.failNext .trailingComma
        | some _ => next c

/-- The fields of an object behind its brace. -/
def readFields (value : Cursor → Read Json) :
    Nat → Bool → List (String × Json) → Cursor → Read Json
  | 0, _, _, c => c.fail .endInObject
  | fuel + 1, first, done, c =>
    let c := c.skipBlanks
    match c.peek with
    | none => c.failNext .endInObject
    | some 0x7d => .ok (.object done, c.advance)
    | some b =>
      let next (c : Cursor) : Read Json :=
        match readString c.advance with
        | .error e => .error e
        | .ok (name, c) =>
          let c := c.skipBlanks
          match c.peek with
          | none => c.failNext .endInObject
          | some 0x3a =>
            match value c.advance with
            | .error e => .error e
            | .ok (v, c) => readFields value fuel false (Fields.insert name v done) c
          | some _ => c.failNext .noColon
      if first then
        if b = 0x22 then next c else c.failNext .keyNotString
      else if b ≠ 0x2c then c.failNext .noObjectEnd
      else
        let c := c.advance.skipBlanks
        match c.peek with
        | none => c.failNext .endInValue
        | some 0x22 => next c
        | some 0x7d => c.failNext .trailingComma
        | some _ => c.failNext .keyNotString

/-- A value in which at most `depth` arrays and objects are inside each other. -/
def readValue : Nat → Cursor → Read Json
  | depth, c =>
    let c := c.skipBlanks
    match c.peek with
    | none => c.failNext .endInValue
    | some b =>
      let after := c.advance
      if b = 0x6e then readWord .null [0x75, 0x6c, 0x6c] after
      else if b = 0x74 then readWord (.bool true) [0x72, 0x75, 0x65] after
      else if b = 0x66 then readWord (.bool false) [0x61, 0x6c, 0x73, 0x65] after
      else if b = 0x2d then readNumber true after
      else if Cursor.isDigit b then readNumber false c
      else if b = 0x22 then
        match readString after with
        | .error e => .error e
        | .ok (s, c) => .ok (.string s, c)
      else if b = 0x5b || b = 0x7b then
        match depth with
        | 0 => c.failNext .tooDeep
        | depth + 1 =>
          if b = 0x5b then readItems (readValue depth) (after.rest.length + 1) true [] after
          else readFields (readValue depth) (after.rest.length + 1) true [] after
      else c.failNext .noValue

def depthLimit : Nat := 127

def parse (bytes : Bytes) : Except SyntaxError Json :=
  match readValue depthLimit (.start bytes) with
  | .error e => .error e
  | .ok (v, c) =>
    let c := c.skipBlanks
    if c.rest.isEmpty then .ok v else c.failNext .trailingCharacters

end PluginManager.Json
