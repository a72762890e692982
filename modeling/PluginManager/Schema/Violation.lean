import PluginManager.Json.Printer
import PluginManager.Text.Split

/-!
# Schema violations

A violation is a place in a document, the value there and what it breaks.

* `Pointer`: the way to a value, rendered with `~` and `/` escaped; `resolve?` follows it.
* `Breach.message`: what is wrong with a value, in words.
* `Violation.line`: place and message.
-/

namespace PluginManager.Schema

/-! ## Pointers -/

abbrev Pointer := List String

def escapeToken (token : String) : String :=
  String.ofList (token.toList.flatMap fun c =>
    if c = '~' then ['~', '0'] else if c = '/' then ['~', '1'] else [c])

def Pointer.render (p : Pointer) : String :=
  String.join (p.map fun token => "/" ++ escapeToken token)

def unescapeToken : List Char → List Char
  | '~' :: '0' :: rest => '~' :: unescapeToken rest
  | '~' :: '1' :: rest => '/' :: unescapeToken rest
  | c :: rest => c :: unescapeToken rest
  | [] => []

/-- The tokens of a pointer's text, which is empty or begins with a slash. -/
def Pointer.ofText (text : String) : Pointer :=
  ((Text.splitText '/' text).drop 1).map fun token => String.ofList (unescapeToken token.toList)

def resolve? (v : Json) : Pointer → Option Json
  | [] => some v
  | token :: rest =>
    match v with
    | .object fields => (fields.lookup token).bind (resolve? · rest)
    | .array items =>
      match token.toNat? with
      | none => none
      | some i => if toString i = token then (items[i]?).bind (resolve? · rest) else none
    | _ => none

/-! ## Types of values -/

inductive Kind where
  | array
  | boolean
  | integer
  | null
  | number
  | object
  | string
  deriving DecidableEq, Repr

def Kind.all : List Kind := [.array, .boolean, .integer, .null, .number, .object, .string]

def Kind.name : Kind → String
  | array => "array"
  | boolean => "boolean"
  | integer => "integer"
  | null => "null"
  | number => "number"
  | object => "object"
  | string => "string"

def Kind.ofName? (name : String) : Option Kind := all.find? fun k => k.name = name

/-- A whole number is an integer however it is written. -/
def Kind.holds : Kind → Json → Bool
  | array, .array _ => true
  | boolean, .bool _ => true
  | integer, .number n => n.isInteger
  | null, .null => true
  | number, .number _ => true
  | object, .object _ => true
  | string, .string _ => true
  | _, _ => false

/-! ## Breaches -/

inductive Measure where
  | item
  | property
  | character
  deriving DecidableEq, Repr

def Measure.count (u : Measure) (n : Nat) : String :=
  toString n ++ " " ++
    match u, n with
    | item, 1 => "item"
    | item, _ => "items"
    | property, 1 => "property"
    | property, _ => "properties"
    | character, 1 => "character"
    | character, _ => "characters"

inductive Breach where
  | falseSchema
  | kind (expected : List Kind)
  | notOneOf (options : Json)
  | notConstant (expected : Json)
  | required (name : String)
  | additional (names : List String)
  | more (measure : Measure) (limit : Nat)
  | less (measure : Measure) (limit : Nat)
  | notUnique
  | belowMinimum (limit : Number)
  | aboveMaximum (limit : Number)
  | notAboveMinimum (limit : Number)
  | notBelowMaximum (limit : Number)
  | notMultiple (of : Binary64)
  | noneOfAny
  | noneOfOne
  | severalOfOne
  | forbidden (schema : Json)
  | pattern (text : String)
  deriving Repr

def kindList (kinds : List Kind) : String :=
  ", ".intercalate ((Kind.all.filter (· ∈ kinds)).map fun k => "\"" ++ k.name ++ "\"")

def Breach.message (b : Breach) (value : Json) : String :=
  let v := value.render
  match b with
  | falseSchema => "False schema does not allow " ++ v
  | kind [k] => v ++ " is not of type \"" ++ k.name ++ "\""
  | kind kinds => v ++ " is not of types " ++ kindList kinds
  | notOneOf options => v ++ " is not one of " ++ options.render
  | notConstant expected => expected.render ++ " was expected"
  | required name => Json.renderString name ++ " is a required property"
  | additional names =>
    "Additional properties are not allowed (" ++
      ", ".intercalate (names.map fun n => "'" ++ n ++ "'") ++
      (if names.length = 1 then " was unexpected)" else " were unexpected)")
  | more .character n => v ++ " is longer than " ++ Measure.character.count n
  | more u n => v ++ " has more than " ++ u.count n
  | less .character n => v ++ " is shorter than " ++ Measure.character.count n
  | less u n => v ++ " has less than " ++ u.count n
  | notUnique => v ++ " has non-unique elements"
  | belowMinimum n => v ++ " is less than the minimum of " ++ n.render
  | aboveMaximum n => v ++ " is greater than the maximum of " ++ n.render
  | notAboveMinimum n => v ++ " is less than or equal to the minimum of " ++ n.render
  | notBelowMaximum n => v ++ " is greater than or equal to the maximum of " ++ n.render
  | notMultiple n => v ++ " is not a multiple of " ++ n.renderPlain
  | noneOfAny => v ++ " is not valid under any of the schemas listed in the 'anyOf' keyword"
  | noneOfOne => v ++ " is not valid under any of the schemas listed in the 'oneOf' keyword"
  | severalOfOne =>
    v ++ " is valid under more than one of the schemas listed in the 'oneOf' keyword"
  | forbidden schema => schema.render ++ " is not allowed for " ++ v
  | pattern text => v ++ " does not match " ++ Json.renderString text

structure Violation where
  place : Pointer
  value : Json
  breach : Breach
  deriving Repr

def Violation.text (v : Violation) : String := v.breach.message v.value

def Violation.line (v : Violation) : String :=
  "  - " ++ (if v.place = [] then "(root)" else Pointer.render v.place) ++ ": " ++ v.text

end PluginManager.Schema
