import PluginManager.Text.Quoted
import PluginManager.Toml.Basic

/-!
# Keys and strings in TOML text

Scanners on characters: each gives what it read and the rest, or nothing when the text is not of
its form.

* `readString`: the four forms of strings.
* `readKey`: bare and quoted keys with dots between them.
-/

namespace PluginManager.Toml

abbrev Scan (α : Type) := List Char → Option (α × List Char)

/-! ## Characters -/

def isSpace (c : Char) : Bool := c = ' ' || c = '\t'

def isDigit (c : Char) : Bool := '0' ≤ c && c ≤ '9'

/-- Characters that may stand in comments and literal strings. -/
def isPrintable (c : Char) : Bool := c = '\t' || (0x20 ≤ c.toNat && c.toNat ≠ 0x7f)

def skipSpaces (cs : List Char) : List Char := cs.dropWhile isSpace

def newline? : List Char → Option (List Char)
  | '\n' :: rest => some rest
  | '\r' :: '\n' :: rest => some rest
  | _ => none

/-- Behind a comment, if there is one. -/
def skipComment : List Char → List Char
  | '#' :: rest => rest.dropWhile isPrintable
  | cs => cs

/-- A line may end with spaces and a comment. -/
def lineEnd (cs : List Char) : Option (List Char) :=
  match skipComment (skipSpaces cs) with
  | [] => some []
  | cs => newline? cs

/-- Spaces, comments and line ends. -/
def skipLines : Nat → List Char → List Char
  | 0, cs => cs
  | fuel + 1, cs =>
    let cs := skipSpaces cs
    match newline? (skipComment cs) with
    | none => cs
    | some rest => skipLines fuel rest

/-! ## Strings -/

def hexValue? (c : Char) : Option Nat :=
  if isDigit c then some (c.toNat - 48)
  else if 'a' ≤ c && c ≤ 'f' then some (c.toNat - 87)
  else if 'A' ≤ c && c ≤ 'F' then some (c.toNat - 55)
  else none

def codePoint (digits : List Char) : Option Char :=
  match digits.mapM hexValue? with
  | none => none
  | some ds =>
    let n := ds.foldl (fun n d => n * 16 + d) 0
    if n < 0xd800 || (0xdfff < n && n < 0x110000) then some (Char.ofNat n) else none

/-- The character of an escape, behind its backslash. -/
def escapeSequence : Scan Char
  | 'b' :: rest => some ('\x08', rest)
  | 't' :: rest => some ('\t', rest)
  | 'n' :: rest => some ('\n', rest)
  | 'f' :: rest => some ('\x0c', rest)
  | 'r' :: rest => some ('\r', rest)
  | '"' :: rest => some ('"', rest)
  | '\\' :: rest => some ('\\', rest)
  | 'u' :: rest =>
    if rest.length < 4 then none
    else (codePoint (rest.take 4)).map fun c => (c, rest.drop 4)
  | 'U' :: rest =>
    if rest.length < 8 then none
    else (codePoint (rest.take 8)).map fun c => (c, rest.drop 8)
  | _ => none

def basicBody : Nat → List Char → Scan (List Char)
  | 0, _, _ => none
  | fuel + 1, done, cs =>
    match cs with
    | '"' :: rest => some (done.reverse, rest)
    | '\\' :: rest =>
      match escapeSequence rest with
      | none => none
      | some (c, rest) => basicBody fuel (c :: done) rest
    | c :: rest => if isPrintable c then basicBody fuel (c :: done) rest else none
    | [] => none

def literalBody (cs : List Char) : Option (List Char × List Char) :=
  match cs.span fun c => isPrintable c && c ≠ '\'' with
  | (body, '\'' :: rest) => some (body, rest)
  | _ => none

/-- Behind a backslash at the end of a line: all blanks up to the next character. -/
def skipFold (cs : List Char) : Option (List Char) :=
  match newline? (skipSpaces cs) with
  | none => none
  | some rest => some (rest.dropWhile fun c => isSpace c || c = '\n' || c = '\r')

/-- The body of a string of several lines up to three quotes; up to two more belong to it. -/
def longBody (quote : Char) (escapes : Bool) : Nat → List Char → Scan (List Char)
  | 0, _, _ => none
  | fuel + 1, done, cs =>
    let quotes := (cs.takeWhile (· = quote)).length
    if 3 ≤ quotes then
      if 5 < quotes then none
      else some (done.reverse ++ List.replicate (quotes - 3) quote, cs.drop quotes)
    else
      match cs with
      | [] => none
      | c :: rest =>
        if escapes && c = '\\' then
          match skipFold rest with
          | some rest => longBody quote escapes fuel done rest
          | none =>
            match escapeSequence rest with
            | none => none
            | some (c, rest) => longBody quote escapes fuel (c :: done) rest
        else
          match newline? cs with
          | some rest => longBody quote escapes fuel ('\n' :: done) rest
          | none => if isPrintable c then longBody quote escapes fuel (c :: done) rest else none

def dropNewline (cs : List Char) : List Char := (newline? cs).getD cs

def readString : Scan String := fun cs =>
  let result :=
    match cs with
    | '"' :: '"' :: '"' :: rest => longBody '"' true (cs.length + 1) [] (dropNewline rest)
    | '\'' :: '\'' :: '\'' :: rest => longBody '\'' false (cs.length + 1) [] (dropNewline rest)
    | '"' :: rest => basicBody (cs.length + 1) [] rest
    | '\'' :: rest => literalBody rest
    | _ => none
  result.map fun (body, rest) => (String.ofList body, rest)

/-! ## Keys -/

def isBare (c : Char) : Bool := c.isAlphanum || c = '_' || c = '-'

def simpleKey : Scan String := fun cs =>
  match cs with
  | '"' :: rest => (basicBody (cs.length + 1) [] rest).map fun (b, r) => (String.ofList b, r)
  | '\'' :: rest => (literalBody rest).map fun (b, r) => (String.ofList b, r)
  | _ =>
    match cs.span isBare with
    | ([], _) => none
    | (name, rest) => some (String.ofList name, rest)

/-- A key of several parts between dots. -/
def dottedKey : Nat → List String → Scan (List String)
  | 0, _, _ => none
  | fuel + 1, done, cs =>
    match simpleKey (skipSpaces cs) with
    | none => none
    | some (name, rest) =>
      match skipSpaces rest with
      | '.' :: rest => dottedKey fuel (name :: done) rest
      | rest => some ((name :: done).reverse, rest)

def keyLimit : Nat := 80

def readKey : Scan (List String) := fun cs =>
  match dottedKey (cs.length + 1) [] cs with
  | none => none
  | some (names, rest) => if keyLimit ≤ names.length then none else some (names, rest)

end PluginManager.Toml
