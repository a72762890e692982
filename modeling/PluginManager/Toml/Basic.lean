import PluginManager.Decode
import PluginManager.Fields

/-!
# TOML values

* `Toml.merge`: one table laid over another, table by table; any other value replaces what was
  there.
* `Toml.found`: how a value is described when it has the wrong type; moments count as text.
-/

namespace PluginManager

inductive Toml where
  | string (s : String)
  | integer (n : Int)
  | float (text : String)
  | boolean (b : Bool)
  | moment (text : String)
  | array (items : List Toml)
  | table (fields : List (String × Toml))
  deriving Repr, Inhabited

namespace Toml

def found : Toml → Found
  | string s => .string s
  | integer n => .integer n
  | float text => .float text
  | boolean b => .boolean b
  | moment text => .string text
  | array _ => .sequence
  | table _ => .map

mutual

/-- `overlay` over `base`. -/
def merge (base overlay : Toml) : Toml :=
  match base, overlay with
  | table fields, table more => table (mergeFields fields more)
  | _, overlay => overlay

def mergeFields (fields : List (String × Toml)) : List (String × Toml) → List (String × Toml)
  | [] => fields
  | (name, value) :: rest =>
    let merged :=
      match fields.lookup name with
      | none => value
      | some old => merge old value
    mergeFields (Fields.insert name merged fields) rest

end

/-- The value at the end of a path of keys. -/
def at? : Toml → List String → Option Toml
  | v, [] => some v
  | table fields, key :: rest => (fields.lookup key).bind (at? · rest)
  | _, _ :: _ => none

end Toml

end PluginManager
