import PluginManager.Binary64
import PluginManager.Fields

/-!
# JSON values

* `Json.ofFields`: an object of fields in any order.
* `Number.same`: whole numbers are compared exactly, others in double precision.
* `Json.same`: equality where numbers are equal by value, so `1` and `1.0` are the same, and
  neither is a truth value.
-/

namespace PluginManager

/-- Whole numbers in the range of 64 bits, with or without sign, are kept exactly. -/
inductive Number where
  | integer (n : Int)
  | float (x : Binary64)
  deriving DecidableEq, Repr

namespace Number

def ratio : Number → Int × Nat
  | integer n => (n, 1)
  | float x => x.signedRatio

def compare (a b : Number) : Ordering :=
  Binary64.compareRatio a.ratio b.ratio

/-- The nearest double-precision number. -/
def toBinary64 : Number → Binary64
  | integer n => (Binary64.ofInt? n).getD (.zero false)
  | float x => x

def same : Number → Number → Bool
  | integer m, integer n => m = n
  | a, b => Binary64.compareRatio a.toBinary64.signedRatio b.toBinary64.signedRatio = .eq

def isInteger : Number → Bool
  | integer _ => true
  | float x => x.isInteger

end Number

inductive Json where
  | null
  | bool (b : Bool)
  | number (n : Number)
  | string (s : String)
  | array (items : List Json)
  | object (fields : List (String × Json))
  deriving Repr, Inhabited

namespace Json

/-- An object keeps its fields sorted by name; of fields with one name the last counts. -/
def ofFields (fields : List (String × Json)) : Json := .object (Fields.ofList fields)

def field? (name : String) : Json → Option Json
  | object fields => fields.lookup name
  | _ => none

/-! ## Equality by value -/

mutual

def same : Json → Json → Bool
  | null, null => true
  | bool a, bool b => a == b
  | number a, number b => a.same b
  | string a, string b => a == b
  | array as, array bs => sameItems as bs
  | object as, object bs => sameFields as bs
  | _, _ => false

def sameItems : List Json → List Json → Bool
  | [], [] => true
  | a :: as, b :: bs => same a b && sameItems as bs
  | _, _ => false

def sameFields : List (String × Json) → List (String × Json) → Bool
  | [], [] => true
  | (m, a) :: as, (n, b) :: bs => m == n && same a b && sameFields as bs
  | _, _ => false

end

/-- How many values are nested in each other, at most. -/
def depth : Json → Nat
  | array items => depthItems items + 1
  | object fields => depthFields fields + 1
  | _ => 1
where
  depthItems : List Json → Nat
    | [] => 0
    | a :: as => max a.depth (depthItems as)
  depthFields : List (String × Json) → Nat
    | [] => 0
    | (_, a) :: as => max a.depth (depthFields as)

/-- How many values there are, nested ones included. -/
def size : Json → Nat
  | array items => sizeItems items + 1
  | object fields => sizeFields fields + 1
  | _ => 1
where
  sizeItems : List Json → Nat
    | [] => 0
    | a :: as => a.size + sizeItems as
  sizeFields : List (String × Json) → Nat
    | [] => 0
    | (_, a) :: as => a.size + sizeFields as

end Json

end PluginManager
