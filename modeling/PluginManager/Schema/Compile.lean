import PluginManager.Json.Parser
import PluginManager.Schema.Meta
import PluginManager.Schema.Validate

/-!
# Schemas ready for use

Bytes become a schema when they are a JSON text, the text agrees with the schema of its draft and
every reference in use leads somewhere.

* `compile`: the schema, or the first thing that is wrong with it.
* `Schema.violations`: of a document.
-/

namespace PluginManager

namespace Schema

inductive Defect where
  | notJson (cause : Json.SyntaxError)
  | unknownDraft (name : String)
  | breach (first : Violation)
  | danglingPointer (text : String)
  | danglingAnchor (name : String)
  | foreign (text : String)
  | vanished
  deriving Repr

def Defect.message : Defect → String
  | notJson cause => "not JSON: " ++ cause.message
  | unknownDraft name => "Unknown specification: " ++ name
  | breach first => first.text
  | danglingPointer text => "Pointer '" ++ text ++ "' does not exist"
  | danglingAnchor name => "Anchor '" ++ name ++ "' does not exist"
  | foreign text => "Resource '" ++ text ++ "' is not present in a registry"
  | vanished => "cached schema disappeared"

/-! ## Drafts -/

def dropHashes (s : String) : String :=
  String.ofList ((s.toList.reverse.dropWhile (· = '#')).reverse)

def draftOf (document : Json) : Except Defect Draft :=
  match document.field? "$schema" with
  | some (.string name) =>
    let draft := dropHashes name
    if draft = "https://json-schema.org/draft/2020-12/schema"
        || draft = "https://json-schema.org/draft/2019-09/schema" then .ok .draft202012
    else if draft = "http://json-schema.org/draft-07/schema"
        || draft = "http://json-schema.org/draft-06/schema"
        || draft = "http://json-schema.org/draft-04/schema" then .ok .draft07
    else .error (.unknownDraft name)
  | _ => .ok .draft202012

def Draft.metaSchema : Draft → Json
  | draft07 => metaSchema07
  | draft202012 => metaSchema202012

/-! ## References in use -/

/-- The schemas that a keyword applies. -/
def subschemas (name : String) (arg : Json) : List Json :=
  match name, arg with
  | "properties", .object fields => fields.map Prod.snd
  | "items", .array schemas => schemas
  | "allOf", .array schemas | "anyOf", .array schemas | "oneOf", .array schemas => schemas
  | "additionalProperties", schema | "items", schema | "not", schema | "if", schema
  | "then", schema | "else", schema => [schema]
  | _, _ => []

/-- Visits the schemas in use, each reference once; the result is the references visited. -/
def visit (draft : Draft) (root : Json) : Nat → List String → Json → Except Defect (List String)
  | 0, seen, _ => .ok seen
  | fuel + 1, seen, schema =>
    match schema with
    | .bool _ => .ok seen
    | .object fields =>
      (effective draft fields).foldlM (fun seen (name, arg) =>
        match name, arg with
        | "$ref", .string text =>
          if seen.contains text then .ok seen
          else
            let r := Reference.ofText text
            match r.target? root, r with
            | some target, _ => visit draft root fuel (text :: seen) target
            | none, .pointer p => .error (.danglingPointer p)
            | none, .anchor a => .error (.danglingAnchor a)
            | none, .elsewhere t => .error (.foreign t)
        | name, arg => (subschemas name arg).foldlM (visit draft root fuel) seen) seen
    | other => .error (.breach ⟨[], other, .kind [.boolean, .object]⟩)

def checkReferences (draft : Draft) (root : Json) : Except Defect Unit :=
  (visit draft root ((root.size + 1) * (root.depth + 1)) [] root).map fun _ => ()

end Schema

/-- A schema document that has been checked. -/
structure Schema where
  draft : Schema.Draft
  document : Json
  deriving Repr

namespace Schema

def ofDocument (document : Json) : Except Defect Schema :=
  match draftOf document with
  | .error e => .error e
  | .ok draft =>
    match Schema.violationsWithin draft draft.metaSchema
        (stepBound draft.metaSchema document) draft.metaSchema [] document with
    | first :: _ => .error (.breach first)
    | [] => (checkReferences draft document).map fun _ => ⟨draft, document⟩

def compile (bytes : Bytes) : Except Defect Schema :=
  match Json.parse bytes with
  | .error cause => .error (.notJson cause)
  | .ok document => ofDocument document

def check (s : Schema) (document : Json) : List Violation :=
  violations s.draft s.document document

end Schema

end PluginManager
