import PluginManager.Failure
import PluginManager.FileSystem.Calls

/-!
# Tasks

A task is a run of file operations.  Where it fails, what was done before stays done.

* `Task.look`, `Task.change`: one operation as a task, its error reported for a path.
* `Task.run`: the result and the file system afterwards.
-/

namespace PluginManager

/-- Operations whose error does not tell a path. -/
abbrev FileTask (α : Type) := EStateM FileError FileSystem α

abbrev Task (α : Type) := EStateM Failure FileSystem α

def FileTask.change (f : FileSystem → Except FileError FileSystem) : FileTask Unit := fun fs =>
  match f fs with
  | .ok fs' => .ok () fs'
  | .error e => .error e fs

namespace Task

/-- Reports the errors of `t` for `p`. -/
def forPath {α : Type} (p : Path) (t : FileTask α) : Task α := fun fs =>
  match t fs with
  | .ok a fs' => .ok a fs'
  | .error e fs' => .error (.file p e) fs'

def look {α : Type} (p : Path) (f : FileSystem → Except FileError α) : Task α := fun fs =>
  match f fs with
  | .ok a => .ok a fs
  | .error e => .error (.file p e) fs

def change (p : Path) (f : FileSystem → Except FileError FileSystem) : Task Unit :=
  forPath p (FileTask.change f)

def ofExcept {α : Type} : Except Failure α → Task α
  | .ok a => pure a
  | .error e => throw e

def run {α : Type} (t : Task α) (fs : FileSystem) : Except Failure α × FileSystem :=
  match t fs with
  | .ok a fs' => (.ok a, fs')
  | .error e fs' => (.error e, fs')

end Task

end PluginManager
