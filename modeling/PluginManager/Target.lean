import PluginManager.Failure
import PluginManager.FileSystem.Calls

/-!
# Target repositories

The root of the companion repository for a role is known beforehand or asked for; either way it has
to look like a checkout.

* `checkDirectory`: the check of an answer as typed.
* `checkTarget`: the check of an absolute root.
* `Targets.answer`: known roots first, then the prompt.
-/

namespace PluginManager

/-! ## Checks -/

inductive DirectoryFault where
  | empty
  | missing
  | notDirectory
  | noMarker (role : Role)
  deriving DecidableEq, Repr

def DirectoryFault.message : DirectoryFault → String
  | empty => "Value is required"
  | missing => "Directory does not exist"
  | notDirectory => "Path is not a directory"
  | noMarker role => "Directory does not look to be a cloned " ++ role.repository ++ " repository"

def hasMarker (fs : FileSystem) (root : Path) (role : Role) : Bool :=
  fs.exists? (root.child role.marker)

def checkDirectory (fs : FileSystem) (p : Path) (role : Role) : Except DirectoryFault Unit :=
  if p.text = "" then .error .empty
  else
    match fs.find true p with
    | .error _ => .error .missing
    | .ok (_, entry) =>
      if !entry.isDirectory then .error .notDirectory
      else if !hasMarker fs p role then .error (.noMarker role)
      else .ok ()

def checkTarget (fs : FileSystem) (root : Path) (role : Role) : Except Failure Unit :=
  match fs.find true root with
  | .error e => .error (.file root e)
  | .ok (_, entry) =>
    if !entry.isDirectory then .error (.file root .pathNotDirectory)
    else if !hasMarker fs root role then .error (.targetRepository role root)
    else .ok ()

/-- An answer made absolute, if it is a target. -/
def acceptTarget (fs : FileSystem) (answer : Path) (role : Role) : Except Failure Path :=
  match fs.absolute answer with
  | .error e => .error (.file answer e)
  | .ok root => (checkTarget fs root role).map fun () => root

/-! ## Where roots come from -/

/-- Roots known beforehand. -/
abbrev Presets := Role → Option Path

def Presets.none : Presets := fun _ => Option.none

def Presets.set (p : Presets) (role : Role) (root : Path) : Presets :=
  fun r => if r = role then some root else p r

/-- Later roots replace earlier ones. -/
def Presets.override (p : Presets) (targets : List (Role × Path)) : Presets :=
  targets.foldl (fun p (role, root) => p.set role root) p

/-- Answers a question for a role, given the questions that came before. -/
abbrev Prompt := List Role → Role → Except Failure Path

def Prompt.noTerminal : Prompt := fun _ _ => .error .noTerminal

structure Targets where
  presets : Presets
  fallback : Option Prompt

/-- The root for a role, and the questions asked so far. -/
def Targets.answer (t : Targets) (asked : List Role) (role : Role) :
    Except Failure Path × List Role :=
  match t.presets role with
  | some root => (.ok root, asked)
  | none =>
    match t.fallback with
    | none => (.error (.invalid (.noTarget role)), asked)
    | some prompt => (prompt asked role, asked ++ [role])

end PluginManager
