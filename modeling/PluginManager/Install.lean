import PluginManager.FileSystem.Tree
import PluginManager.Manifest.Read
import PluginManager.Target

/-!
# Installing and uninstalling

Every entry of a manifest is resolved to a destination before anything is changed.  The destination
depends on the current manifest and target alone; nothing records what an earlier run wrote.

* `plan`: all destinations, or the first failure; a role's root is asked for once in a session.
* `install`, `uninstall`: plan, then one action after the other.
-/

namespace PluginManager

inductive InstallMode where
  | copy
  | link
  deriving DecidableEq, Repr

/-- A component with its place in a target repository. -/
structure Action where
  role : Role
  source : Path
  destination : Path
  deriving DecidableEq, Repr

/-- What is kept between runs: roots that passed their check, and the questions asked. -/
structure Session where
  roots : Presets
  asked : List Role

def Session.start : Session := ⟨.none, []⟩

namespace Session

/-! ## Planning -/

def targetRoot (fs : FileSystem) (t : Targets) (role : Role) (s : Session) :
    Except Failure Path × Session :=
  match s.roots role with
  | some root => (.ok root, s)
  | none =>
    match t.answer s.asked role with
    | (.error e, asked) => (.error e, { s with asked })
    | (.ok answer, asked) =>
      match acceptTarget fs answer role with
      | .error e => (.error e, { s with asked })
      | .ok root => (.ok root, ⟨s.roots.set role root, asked⟩)

def actionFor (root : Path) (author : String) (target : Path) (c : Component) : Action :=
  ⟨c.role, c.source root, target.join (c.role.outputDirectory author c.name)⟩

def plan (fs : FileSystem) (t : Targets) (root : Path) (author : String) :
    List Component → Session → Except Failure (List Action) × Session
  | [], s => (.ok [], s)
  | c :: rest, s =>
    match targetRoot fs t c.role s with
    | (.error e, s) => (.error e, s)
    | (.ok target, s) =>
      match plan fs t root author rest s with
      | (.error e, s) => (.error e, s)
      | (.ok actions, s) => (.ok (actionFor root author target c :: actions), s)

/-- The canonical root of a plugin and its manifest. -/
def load (fs : FileSystem) (root : Path) : Except Failure (Path × Manifest) :=
  match fs.canonical root with
  | .error e => .error (.file root e)
  | .ok canonical => (Manifest.read fs canonical).map fun manifest => (canonical, manifest)

def loadAndPlan (fs : FileSystem) (t : Targets) (root : Path) (s : Session) :
    Except Failure (List Action) × Session :=
  match load fs root with
  | .error e => (.error e, s)
  | .ok (canonical, manifest) => plan fs t canonical manifest.author manifest.installs s

/-! ## Acting -/

def installAction (mode : InstallMode) (a : Action) : Task Unit := do
  Task.forPath a.destination (FileSystem.removeAll a.destination)
  match mode with
  | .copy => FileSystem.copyDirectory a.source a.destination
  | .link => FileSystem.linkTo a.source a.destination

def uninstallAction (a : Action) : Task Unit :=
  Task.forPath a.destination (FileSystem.removeAll a.destination)

/-- Plans with the file system as it is, then acts. -/
def carryOut (act : Action → Task Unit) (t : Targets) (root : Path) (s : Session)
    (fs : FileSystem) : Except Failure (List Action) × Session × FileSystem :=
  match loadAndPlan fs t root s with
  | (.error e, s) => (.error e, s, fs)
  | (.ok actions, s) =>
    match (actions.forM act : Task Unit) fs with
    | .ok _ fs => (.ok actions, s, fs)
    | .error e fs => (.error e, s, fs)

def install (mode : InstallMode) (t : Targets) (root : Path) (s : Session) (fs : FileSystem) :
    Except Failure (List Action) × Session × FileSystem :=
  carryOut (installAction mode) t root s fs

def uninstall (t : Targets) (root : Path) (s : Session) (fs : FileSystem) :
    Except Failure (List Action) × Session × FileSystem :=
  carryOut uninstallAction t root s fs

end Session

end PluginManager
