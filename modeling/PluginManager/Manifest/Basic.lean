import PluginManager.Binary64.Shortest
import PluginManager.Decode
import PluginManager.Role

/-!
# Plugin manifests

A manifest names a plugin and its author, may describe it, and lists the components to install.
`Draft` is a manifest as written, `Manifest` one whose entries are known to be components.

* `Draft.ofJson`: by field name, or as an array of the fields in order; unknown fields are ignored.
  Of several mismatches the one met first in the order of names is reported, missing fields last.
-/

namespace PluginManager

def Json.found : Json → Found
  | null => .null
  | bool b => .boolean b
  | number (.integer n) => .integer n
  | number (.float x) => .float (x.render .compact)
  | string s => .string s
  | array _ => .sequence
  | object _ => .map

namespace Manifest

/-- An entry as written. -/
structure Listing where
  path : String
  kind : String
  deriving DecidableEq, Repr

/-- A manifest as written. -/
structure Draft where
  name : String
  author : String
  description : Option String
  installs : List Listing
  deriving DecidableEq, Repr

/-! ## Fields -/

def text : Json → Except Mismatch String
  | .string s => .ok s
  | v => .error (.wrongType v.found .string)

def optionalText : Json → Except Mismatch (Option String)
  | .null => .ok none
  | v => (text v).map some

/-- The value of a field if it is there. -/
def optional {α : Type} (decode : Json → Except Mismatch α) (fields : List (String × Json))
    (name : String) : Except Mismatch (Option α) :=
  match fields.lookup name with
  | none => .ok none
  | some v => (decode v).map some

def needed {α : Type} (name : String) : Option α → Except Mismatch α
  | none => .error (.missingField name)
  | some a => .ok a

/-- The value at a place of an array of fields. -/
def nth {α : Type} (decode : Json → Except Mismatch α) (expected : Expected) (items : List Json)
    (i : Nat) : Except Mismatch α :=
  match items[i]? with
  | none => .error (.wrongLength i expected)
  | some v => decode v

def noMore (count : Nat) (items : List Json) : Except Mismatch Unit :=
  if count < items.length then .error (.wrongLength items.length .fewerElements) else .ok ()

/-! ## Entries -/

def Listing.ofJson : Json → Except Mismatch Listing
  | .object fields => do
    let path ← optional text fields "path"
    let kind ← optional text fields "type"
    return ⟨← needed "path" path, ← needed "type" kind⟩
  | .array items => do
    let expected := Expected.recordOf "RawInstall" 2
    let path ← nth text expected items 0
    let kind ← nth text expected items 1
    noMore 2 items
    return ⟨path, kind⟩
  | v => .error (.wrongType v.found (.record "RawInstall"))

def listings : Json → Except Mismatch (List Listing)
  | .array items => items.mapM Listing.ofJson
  | v => .error (.wrongType v.found .sequence)

/-! ## Manifests -/

def Draft.ofJson : Json → Except Mismatch Draft
  | .object fields => do
    let author ← optional text fields "author"
    let description ← optional optionalText fields "description"
    let installs ← optional listings fields "installs"
    let name ← optional text fields "name"
    let name ← needed "name" name
    let author ← needed "author" author
    let installs ← needed "installs" installs
    return ⟨name, author, description.join, installs⟩
  | .array items => do
    let expected := Expected.recordOf "RawManifest" 4
    let name ← nth text expected items 0
    let author ← nth text expected items 1
    let description ← if items.length ≤ 2 then pure none else nth optionalText expected items 2
    let installs ← nth listings expected items 3
    noMore 4 items
    return ⟨name, author, description, installs⟩
  | v => .error (.wrongType v.found (.record "RawManifest"))

end Manifest

/-- A component to install: its directory as written, relative to the plugin's root, its role, and
the last name of the directory's path. -/
structure Component where
  path : String
  role : Role
  name : String
  deriving DecidableEq, Repr

/-- The component's directory in the plugin at `root`. -/
def Component.source (c : Component) (root : Path) : Path := root.join ⟨c.path⟩

structure Manifest where
  name : String
  author : String
  description : Option String
  installs : List Component
  deriving DecidableEq, Repr

end PluginManager
