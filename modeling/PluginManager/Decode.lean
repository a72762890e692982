import PluginManager.Json.Basic
import PluginManager.Text.Quoted

/-!
# Reading typed values out of untyped ones

What can be wrong with a value that should have a certain type.

* `Found`: how a value is described; `Expected`: what was wanted instead.
* `Mismatch.message`: the two in one sentence.
-/

namespace PluginManager

inductive Found where
  | null
  | boolean (b : Bool)
  | integer (n : Int)
  | float (text : String)
  | string (s : String)
  | sequence
  | map
  deriving DecidableEq, Repr

def Found.describe : Found → String
  | null => "null"
  | boolean b => "boolean \u0060" ++ (if b then "true" else "false") ++ "\u0060"
  | integer n => "integer \u0060" ++ toString n ++ "\u0060"
  | float text => "floating point \u0060" ++ text ++ "\u0060"
  | string s => "string " ++ Text.quoted s
  | sequence => "sequence"
  | map => "map"

inductive Expected where
  | string
  | sequence
  | boolean
  | word64
  | record (name : String)
  | recordOf (name : String) (fields : Nat)
  | fewerElements
  deriving DecidableEq, Repr

def Expected.describe : Expected → String
  | string => "a string"
  | sequence => "a sequence"
  | boolean => "a boolean"
  | word64 => "u64"
  | record name => "struct " ++ name
  | recordOf name 1 => "struct " ++ name ++ " with 1 element"
  | recordOf name n => "struct " ++ name ++ " with " ++ toString n ++ " elements"
  | fewerElements => "fewer elements in array"

inductive Mismatch where
  | missingField (name : String)
  | wrongType (found : Found) (expected : Expected)
  | wrongValue (found : Found) (expected : Expected)
  | wrongLength (n : Nat) (expected : Expected)
  deriving DecidableEq, Repr

def Mismatch.message : Mismatch → String
  | missingField name => "missing field \u0060" ++ name ++ "\u0060"
  | wrongType found expected =>
    "invalid type: " ++ found.describe ++ ", expected " ++ expected.describe
  | wrongValue found expected =>
    "invalid value: " ++ found.describe ++ ", expected " ++ expected.describe
  | wrongLength n expected =>
    "invalid length " ++ toString n ++ ", expected " ++ expected.describe

end PluginManager
