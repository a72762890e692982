import PluginManager.Schema.Violation
import PluginManager.Text.Utf8

/-!
# Validation

The violations of a document, keyword by keyword in the order of their names.

* `keyword`: what one keyword of a schema object says about a value.
* `violations`: of a value at a schema; references lead to other places of the same schema
  document, so the number of steps is bounded by `stepBound`.
-/

namespace PluginManager.Schema

/-- `draft07` ignores what stands beside a reference. -/
inductive Draft where
  | draft07
  | draft202012
  deriving DecidableEq, Repr

/-- Violations of a value at a schema. -/
abbrev Check := Json → Pointer → Json → List Violation

/-! ## References -/

inductive Reference where
  | pointer (text : String)
  | anchor (name : String)
  | elsewhere (text : String)
  deriving DecidableEq, Repr

def hexValue? (c : Char) : Option Nat :=
  if '0' ≤ c && c ≤ '9' then some (c.toNat - 48)
  else if 'a' ≤ c && c ≤ 'f' then some (c.toNat - 87)
  else if 'A' ≤ c && c ≤ 'F' then some (c.toNat - 55)
  else none

/-- A fragment with its percent-encoded bytes decoded. -/
def decodeFragment : List Char → Bytes
  | '%' :: a :: b :: rest =>
    match hexValue? a, hexValue? b with
    | some m, some n => UInt8.ofNat (m * 16 + n) :: decodeFragment rest
    | _, _ => Text.encodeChar '%' ++ decodeFragment (a :: b :: rest)
  | c :: rest => Text.encodeChar c ++ decodeFragment rest
  | [] => []

def Reference.ofText (text : String) : Reference :=
  match text.toList with
  | '#' :: rest =>
    let fragment := Text.decodeLossy (decodeFragment rest)
    if rest = [] || rest.head? = some '/' then .pointer fragment else .anchor fragment
  | _ => .elsewhere text

/-- The schema a local pointer leads to. -/
def Reference.target? (root : Json) : Reference → Option Json
  | .pointer text => resolve? root (Pointer.ofText text)
  | _ => none

/-! ## Numbers -/

/-- Limits are whole numbers, however written. -/
def natural? : Json → Option Nat
  | .number n =>
    let (num, den) := n.ratio
    if 0 ≤ num && num % den = 0 then some (num.toNat / den) else none
  | _ => none

/-- The least difference of a double-precision number to 1, as `2 ^ -52`. -/
def isSmall (num den : Nat) : Bool := num * Nat.pow 2 52 < den

def exactMultiple (x y : Binary64) : Bool :=
  let (a, b) := x.ratio
  let (c, d) := y.ratio
  if c = 0 then false else (a * d) % (b * c) = 0

/-- A whole divisor divides exactly; of any other the rounded quotient has to be whole, up to the
last place, or negative. -/
def isMultiple (x y : Binary64) : Bool :=
  if y.isInteger then x.isInteger && exactMultiple x y
  else
    match x.div? y with
    | none => exactMultiple x y
    | some q =>
      let (a, b) := q.ratio
      q.negative || isSmall (a % b) b

/-! ## Keywords -/

def fieldsOf : Option Json → List (String × Json)
  | some (.object fields) => fields
  | _ => []

def checkNumber (value : Json) (place : Pointer) (ok : Number → Bool) (b : Breach) :
    List Violation :=
  match value with
  | .number n => if ok n then [] else [⟨place, value, b⟩]
  | _ => []

def checkProperties (check : Check) (properties : List (String × Json)) (place : Pointer)
    (fields : List (String × Json)) : List Violation :=
  properties.flatMap fun (name, schema) =>
    match fields.lookup name with
    | none => []
    | some v => check schema (place ++ [name]) v

/-- With a limit on additional properties, the known ones are checked on the way through the
fields; without known ones a false limit refuses the first field. -/
def checkAdditional (check : Check) (properties : Option (List (String × Json))) (schema : Json)
    (place : Pointer) (value : Json) (fields : List (String × Json)) : List Violation :=
  match properties, schema with
  | none, .bool false =>
    match fields with
    | [] => []
    | (_, v) :: _ => [⟨place, v, .falseSchema⟩]
  | properties, schema =>
    let known := properties.getD []
    let inner := fields.flatMap fun (name, v) =>
      match known.lookup name, schema with
      | some s, _ => check s (place ++ [name]) v
      | none, .bool _ => []
      | none, s => check s (place ++ [name]) v
    let unexpected := (fields.filter fun (name, _) => (known.lookup name).isNone).map Prod.fst
    match schema with
    | .bool false =>
      if unexpected = [] then inner else inner ++ [⟨place, value, .additional unexpected⟩]
    | _ => inner

def isUnique : List Json → Bool
  | [] => true
  | v :: rest => !(rest.any (Json.same v)) && isUnique rest

def countCheck (n : Nat) (measure : Measure) (least : Bool) (limit : Json) (place : Pointer)
    (value : Json) : List Violation :=
  match natural? limit with
  | none => []
  | some k =>
    if least then if n < k then [⟨place, value, .less measure k⟩] else []
    else if k < n then [⟨place, value, .more measure k⟩] else []

/-- The two patterns that the schemas of the drafts use; any other accepts every text. -/
def checkPattern (text : String) (s : String) : Bool :=
  if text = "^[^#]*#?$" then
    (s.toList.dropWhile (· ≠ '#')).length ≤ 1
  else if text = "^[A-Za-z_][-A-Za-z0-9._]*$" then
    match s.toList with
    | [] => false
    | c :: rest =>
      (c.isAlpha || c = '_') && rest.all fun c => c.isAlphanum || c = '-' || c = '.' || c = '_'
  else true

/-- What the keyword `name` with the argument `arg` of the schema object `siblings` says. -/
def keyword (check : Check) (draft : Draft) (root : Json) (siblings : List (String × Json))
    (name : String) (arg : Json) (place : Pointer) (value : Json) : List Violation :=
  let holds (schema : Json) : Bool := (check schema place value).isEmpty
  match name, arg, value with
  | "$ref", .string text, _ =>
    match (Reference.ofText text).target? root with
    | none => []
    | some schema => check schema place value
  | "type", .string text, _ =>
    match Kind.ofName? text with
    | none => []
    | some k => if k.holds value then [] else [⟨place, value, .kind [k]⟩]
  | "type", .array names, _ =>
    let kinds := names.filterMap fun
      | .string text => Kind.ofName? text
      | _ => none
    if kinds.any (·.holds value) then [] else [⟨place, value, .kind kinds⟩]
  | "enum", .array options, _ =>
    if options.any (Json.same value) then [] else [⟨place, value, .notOneOf arg⟩]
  | "const", _, _ => if Json.same value arg then [] else [⟨place, value, .notConstant arg⟩]
  | "required", .array names, .object fields =>
    names.flatMap fun
      | .string n => if (fields.lookup n).isSome then [] else [⟨place, value, .required n⟩]
      | _ => []
  | "properties", .object properties, .object fields =>
    match siblings.lookup "additionalProperties" with
    | some (.bool false) | some (.object _) => []
    | _ => checkProperties check properties place fields
  | "additionalProperties", _, .object fields =>
    let properties := (siblings.lookup "properties").map fun p => fieldsOf (some p)
    match arg with
    | .bool true => []
    | _ => checkAdditional check properties arg place value fields
  | "items", .array schemas, .array items =>
    if draft = .draft07 then
      ((schemas.zip items).zipIdx.flatMap fun ((s, v), i) => check s (place ++ [toString i]) v)
    else []
  | "items", _, .array items =>
    items.zipIdx.flatMap fun (v, i) => check arg (place ++ [toString i]) v
  | "minItems", _, .array items => countCheck items.length .item true arg place value
  | "maxItems", _, .array items => countCheck items.length .item false arg place value
  | "minProperties", _, .object fields => countCheck fields.length .property true arg place value
  | "maxProperties", _, .object fields => countCheck fields.length .property false arg place value
  | "minLength", _, .string s => countCheck s.length .character true arg place value
  | "maxLength", _, .string s => countCheck s.length .character false arg place value
  | "uniqueItems", .bool true, .array items =>
    if isUnique items then [] else [⟨place, value, .notUnique⟩]
  | "minimum", .number limit, _ =>
    checkNumber value place (fun n => n.compare limit ≠ .lt) (.belowMinimum limit)
  | "maximum", .number limit, _ =>
    checkNumber value place (fun n => n.compare limit ≠ .gt) (.aboveMaximum limit)
  | "exclusiveMinimum", .number limit, _ =>
    checkNumber value place (fun n => n.compare limit = .gt) (.notAboveMinimum limit)
  | "exclusiveMaximum", .number limit, _ =>
    checkNumber value place (fun n => n.compare limit = .lt) (.notBelowMaximum limit)
  | "multipleOf", .number divisor, _ =>
    checkNumber value place (fun n => isMultiple n.toBinary64 divisor.toBinary64)
      (.notMultiple divisor.toBinary64)
  | "pattern", .string text, .string s =>
    if checkPattern text s then [] else [⟨place, value, .pattern text⟩]
  | "allOf", .array schemas, _ => schemas.flatMap fun s => check s place value
  | "anyOf", .array schemas, _ =>
    if schemas.any holds then [] else [⟨place, value, .noneOfAny⟩]
  | "oneOf", .array schemas, _ =>
    match (schemas.filter holds).length with
    | 0 => [⟨place, value, .noneOfOne⟩]
    | 1 => []
    | _ => [⟨place, value, .severalOfOne⟩]
  | "not", _, _ => if holds arg then [⟨place, value, .forbidden arg⟩] else []
  | "if", _, _ =>
    match siblings.lookup (if holds arg then "then" else "else") with
    | none => []
    | some schema => check schema place value
  | _, _, _ => []

/-! ## Schemas -/

/-- The keywords of a schema object that count. -/
def effective (draft : Draft) (fields : List (String × Json)) : List (String × Json) :=
  match draft, fields.lookup "$ref" with
  | .draft07, some reference => [("$ref", reference)]
  | _, _ => fields

def violationsWithin (draft : Draft) (root : Json) : Nat → Check
  | 0, _, _, _ => []
  | fuel + 1, schema, place, value =>
    match schema with
    | .bool false => [⟨place, value, .falseSchema⟩]
    | .object fields =>
      (effective draft fields).flatMap fun (name, arg) =>
        keyword (violationsWithin draft root fuel) draft root fields name arg place value
    | _ => []

/-- At one place of a document no schema is visited twice, unless a reference leads in a circle. -/
def stepBound (root value : Json) : Nat := (root.size + 1) * (value.depth + 1)

def violations (draft : Draft) (root value : Json) : List Violation :=
  violationsWithin draft root (stepBound root value) root [] value

end PluginManager.Schema
