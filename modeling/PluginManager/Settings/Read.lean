import PluginManager.Settings.Basic
import PluginManager.Toml.Basic

/-!
# Settings in a table

A section is a table of its values by name, or an array of them in order; unknown names are
ignored.

* `Settings.ofToml`: of several faults the first in the order of keys is reported, missing sections
  last.
-/

namespace PluginManager

namespace Settings

/-! ## Reading values -/

abbrev Decode (α : Type) := Toml → Except SettingsFault α

def mismatch {α : Type} (m : Mismatch) : Except SettingsFault α := .error ⟨m, []⟩

def text : Decode String
  | .string s => .ok s
  | .moment s => .ok s
  | v => mismatch (.wrongType v.found .string)

def flag : Decode Bool
  | .boolean b => .ok b
  | v => mismatch (.wrongType v.found .boolean)

def word : Decode Nat
  | .integer n =>
    if n < 0 then mismatch (.wrongValue (.integer n) .word64) else .ok n.toNat
  | v => mismatch (.wrongType v.found .word64)

def texts : Decode (List String)
  | .array items => items.mapM text
  | v => mismatch (.wrongType v.found .sequence)

def under {α : Type} (key : String) : Except SettingsFault α → Except SettingsFault α
  | .ok a => .ok a
  | .error f => .error { f with keys := key :: f.keys }

def optional {α : Type} (decode : Decode α) (fields : List (String × Toml)) (key : String) :
    Except SettingsFault (Option α) :=
  match fields.lookup key with
  | none => .ok none
  | some v => under key ((decode v).map some)

def needed {α : Type} (key : String) : Option α → Except SettingsFault α
  | none => mismatch (.missingField key)
  | some a => .ok a

def nth {α : Type} (decode : Decode α) (expected : Expected) (items : List Toml) (i : Nat) :
    Except SettingsFault α :=
  match items[i]? with
  | none => mismatch (.wrongLength i expected)
  | some v => decode v

def noMore (count : Nat) (items : List Toml) : Except SettingsFault Unit :=
  if count < items.length then mismatch (.wrongLength items.length .fewerElements) else .ok ()

/-! ## Reading sections -/

def general : Decode String
  | .table fields => do needed "log_filter" (← optional text fields "log_filter")
  | .array items => do
    let filter ← nth text (.recordOf "GeneralConfig" 1) items 0
    noMore 1 items
    return filter
  | v => mismatch (.wrongType v.found (.record "GeneralConfig"))

def schemaSection : Decode SchemaSettings
  | .table fields => do
    let cacheDir ← optional text fields "cache_dir"
    let days ← optional word fields "max_age_days"
    let url ← optional text fields "url"
    return ⟨← needed "url" url, ← needed "max_age_days" days, cacheDir⟩
  | .array items => do
    let expected := Expected.recordOf "SchemaConfig" 3
    let url ← nth text expected items 0
    let days ← nth word expected items 1
    let cacheDir ← if items.length ≤ 2 then pure none else (nth text expected items 2).map some
    noMore 3 items
    return ⟨url, days, cacheDir⟩
  | v => mismatch (.wrongType v.found (.record "SchemaConfig"))

def packageSection : Decode PackageSettings
  | .table fields => do
    let extension ← optional text fields "extension"
    let sortEntries ← optional flag fields "sort_entries"
    let dirs ← optional texts fields "strip_dirs"
    let files ← optional texts fields "strip_files"
    let extension ← needed "extension" extension
    let dirs ← needed "strip_dirs" dirs
    let files ← needed "strip_files" files
    return ⟨extension, dirs, files, ← needed "sort_entries" sortEntries⟩
  | .array items => do
    let expected := Expected.recordOf "PackageConfig" 4
    let extension ← nth text expected items 0
    let dirs ← nth texts expected items 1
    let files ← nth texts expected items 2
    let sortEntries ← nth flag expected items 3
    noMore 4 items
    return ⟨extension, dirs, files, sortEntries⟩
  | v => mismatch (.wrongType v.found (.record "PackageConfig"))

def targetSection : Decode TargetSettings
  | .table fields => do
    let admin ← optional text fields "admin"
    let backend ← optional text fields "backend"
    let docker ← optional text fields "docker"
    let store ← optional text fields "store"
    return ⟨backend, admin, store, docker⟩
  | .array items => do
    let expected := Expected.recordOf "TargetsConfig" 4
    let backend ← nth text expected items 0
    let admin ← nth text expected items 1
    let store ← nth text expected items 2
    let docker ← nth text expected items 3
    noMore 4 items
    return ⟨some backend, some admin, some store, some docker⟩
  | v => mismatch (.wrongType v.found (.record "TargetsConfig"))

/-- Of several faults the first in the order of keys is reported, missing sections last. -/
def ofToml (fields : List (String × Toml)) : Except SettingsFault Settings := do
  let logFilter ← optional general fields "general"
  let package ← optional packageSection fields "package"
  let schema ← optional schemaSection fields "schema"
  let targets ← optional targetSection fields "targets"
  let logFilter ← needed "general" logFilter
  let schema ← needed "schema" schema
  let package ← needed "package" package
  return ⟨logFilter, schema, package, targets.getD ⟨none, none, none, none⟩⟩

end Settings

end PluginManager
