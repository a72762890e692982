import PluginManager.FileSystem.Task

/-!
# Trees of files

* `createDirectories`: a directory with all that leads to it.
* `removeAll`: whatever is at a path.  A link is removed itself; nothing there is no error.
* `copyDirectory`: lays the tree of one directory over another.  Files are copied with their mode,
  links with their text, and nothing that the source does not have is touched.
* `linkTo`: a link in place of whatever was there.

Each stops at the first failure, and what was changed by then stays.  As everywhere, nobody is
denied a permission and no device is full.
-/

namespace PluginManager.FileSystem

/-! ## Creating -/

/-- Makes the first of the paths; those that follow enclose it. -/
def createFirst : List Path → FileTask Unit
  | [] => pure ()
  | p :: outer => fun fs =>
    if p.text = "" then .ok () fs
    else
      match fs.makeDirectory p with
      | .ok fs' => .ok () fs'
      | .error .notFound =>
        match createFirst outer fs with
        | .error e fs' => .error e fs'
        | .ok () fs' =>
          match fs'.makeDirectory p with
          | .ok fs'' => .ok () fs''
          | .error e => if fs'.isDirectory p then .ok () fs' else .error e fs'
      | .error e => if fs.isDirectory p then .ok () fs else .error e fs

def createDirectories (p : Path) : FileTask Unit := createFirst p.ancestors

/-! ## Removing -/

/-- Empties a directory, then removes it. -/
def removeTree (l : Location) (p : Path) : FileTask Unit := fun fs =>
  let emptied := fs.eraseBelow l
  match emptied.removeDirectory p with
  | .ok fs' => .ok () fs'
  | .error .notFound => .ok () emptied
  | .error e => .error e emptied

def removeAll (p : Path) : FileTask Unit := fun fs =>
  match fs.find false p with
  | .error .notFound => .ok () fs
  | .error e => .error e fs
  | .ok (l, .directory _) => removeTree l p fs
  | .ok _ => FileTask.change (·.removeFile p) fs

/-! ## Copying -/

/-- Copies one entry; `copy` does it for directories. -/
def copyEntry (copy : Path → Path → Task Unit) (source destination : Path) : Task Unit := do
  let (_, entry) ← Task.look source (·.find false source)
  match entry with
  | .link target => Task.change destination (·.makeLink target destination)
  | .directory mode => do
    copy source destination
    Task.change destination (·.setMode destination mode)
  | .file mode _ => do
    Task.change destination (·.copyFile source destination)
    Task.change destination (·.setMode destination mode)

/-- Each level lengthens the path of the source, so that `levels` may stand for the longest path
there can be. -/
def copyLevels : Nat → Path → Path → Task Unit
  | 0, source, _ => throw (.file source .nameTooLong)
  | levels + 1, source, destination => do
    Task.forPath destination (createDirectories destination)
    let names ← Task.look source (·.readDirectory source)
    names.forM fun name =>
      copyEntry (copyLevels levels) (source.child name) (destination.child name)
    let mode ← Task.look source (·.mode source)
    Task.change destination (·.setMode destination mode)

def copyDirectory (source destination : Path) : Task Unit :=
  copyLevels pathLimit source destination

/-! ## Linking -/

def linkTo (target p : Path) : Task Unit := do
  match p.parent? with
  | some parent => Task.forPath parent (createDirectories parent)
  | none => pure ()
  Task.forPath p (removeAll p)
  Task.change p (·.makeLink target p)

end PluginManager.FileSystem
