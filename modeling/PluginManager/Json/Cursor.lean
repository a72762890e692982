import PluginManager.Json.Basic
import PluginManager.Text.Utf8

/-!
# Places in JSON text

An error has a cause and a place: the line, and how many bytes of it were read, the offending one
included.

* `SyntaxError.message`: the cause and the place in words.
* `Cursor`: what is left of a text, and the place where it begins.
-/

namespace PluginManager.Json

/-! ## Errors -/

inductive Cause where
  | endInValue
  | endInList
  | endInObject
  | endInString
  | noValue
  | noIdent
  | noColon
  | noListEnd
  | noObjectEnd
  | keyNotString
  | trailingComma
  | trailingCharacters
  | badEscape
  | badNumber
  | numberRange
  | controlCharacter
  | badCodePoint
  | loneSurrogate
  | openSurrogate
  | tooDeep
  deriving DecidableEq, Repr

def Cause.message : Cause → String
  | endInValue => "EOF while parsing a value"
  | endInList => "EOF while parsing a list"
  | endInObject => "EOF while parsing an object"
  | endInString => "EOF while parsing a string"
  | noValue => "expected value"
  | noIdent => "expected ident"
  | noColon => "expected \u0060:\u0060"
  | noListEnd => "expected \u0060,\u0060 or \u0060]\u0060"
  | noObjectEnd => "expected \u0060,\u0060 or \u0060\x7d\u0060"
  | keyNotString => "key must be a string"
  | trailingComma => "trailing comma"
  | trailingCharacters => "trailing characters"
  | badEscape => "invalid escape"
  | badNumber => "invalid number"
  | numberRange => "number out of range"
  | controlCharacter => "control character (\\u0000-\\u001F) found while parsing a string"
  | badCodePoint => "invalid unicode code point"
  | loneSurrogate => "lone leading surrogate in hex escape"
  | openSurrogate => "unexpected end of hex escape"
  | tooDeep => "recursion limit exceeded"

structure SyntaxError where
  cause : Cause
  line : Nat
  column : Nat
  deriving DecidableEq, Repr

def SyntaxError.message (e : SyntaxError) : String :=
  e.cause.message ++ " at line " ++ toString e.line ++ " column " ++ toString e.column

/-! ## The place in the text -/

structure Cursor where
  rest : Bytes
  line : Nat
  column : Nat

namespace Cursor

def start (bytes : Bytes) : Cursor := ⟨bytes, 1, 0⟩

def peek (c : Cursor) : Option UInt8 := c.rest.head?

def advance (c : Cursor) : Cursor :=
  match c.rest with
  | [] => c
  | b :: rest => if b = 0x0a then ⟨rest, c.line + 1, 0⟩ else ⟨rest, c.line, c.column + 1⟩

/-- Goes on by bytes that end no line. -/
def skip (c : Cursor) (count : Nat) : Cursor := ⟨c.rest.drop count, c.line, c.column + count⟩

/-- An error at what was read last. -/
def fail {α : Type} (c : Cursor) (cause : Cause) : Except SyntaxError α :=
  .error ⟨cause, c.line, c.column⟩

/-- An error at what comes next. -/
def failNext {α : Type} (c : Cursor) (cause : Cause) : Except SyntaxError α :=
  c.advance.fail cause

def isBlank (b : UInt8) : Bool := b = 0x20 || b = 0x0a || b = 0x09 || b = 0x0d

def isDigit (b : UInt8) : Bool := 0x30 ≤ b && b ≤ 0x39

def dropWhile (p : UInt8 → Bool) (c : Cursor) : Cursor :=
  go c.rest c.line c.column
where
  go : Bytes → Nat → Nat → Cursor
    | [], line, column => ⟨[], line, column⟩
    | b :: rest, line, column =>
      if !p b then ⟨b :: rest, line, column⟩
      else if b = 0x0a then go rest (line + 1) 0
      else go rest line (column + 1)

def skipBlanks (c : Cursor) : Cursor := c.dropWhile isBlank

end Cursor

abbrev Read (α : Type) := Except SyntaxError (α × Cursor)

end PluginManager.Json
