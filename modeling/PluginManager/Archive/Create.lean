import PluginManager.Archive.Basic
import PluginManager.FileSystem.Task
import PluginManager.FileSystem.Walk

/-!
# Archives of a directory

* `gather`: the members for the entries met on a walk: what leads to a regular file, links included,
  except the archive itself at the root.
* `createArchive`: all files below a root but those in directories named `.git`.

A member may have any size.  What would refuse those of 4 GiB and more is left out.
-/

namespace PluginManager.Archive

open FileSystem (Visit)

def fileType : Nat := 0o100000

/-- Nothing inside a directory named `.git` is met. -/
def enters (v : Visit) : Bool := !(v.entry.isDirectory && v.name = ".git")

def isArchiveItself (outName : Option String) (v : Visit) : Bool :=
  v.depth = 1 && outName = some v.name

def memberName (names : List String) : String := "/".intercalate names

/-- The file at `out` is the archive that is being written. -/
def member? (fs : FileSystem) (out : Location) (outName : Option String) (done : List Member)
    (v : Visit) : Option Member :=
  if v.entry.isDirectory || isArchiveItself outName v then none
  else
    match fs.find true v.path with
    | .ok (k, .file mode content) =>
      let name := memberName v.names
      some ⟨name, fileType + mode % 0o1000, if k = out then encodeOpen done name else content⟩
    | _ => none

def gather (fs : FileSystem) (out : Location) (outName : Option String) :
    List Member → List Visit → List Member
  | done, [] => done
  | done, v :: rest =>
    match member? fs out outName done v with
    | none => gather fs out outName done rest
    | some m => gather fs out outName (done ++ [m]) rest

/-- The members of the archive; it is an empty one when the walk fails. -/
def createArchive (root out : Path) (order : FileSystem.Order) : Task (List Member) := fun fs =>
  match fs.writable out with
  | .error e => .error (.file out e) fs
  | .ok (k, existing) =>
    let mode := existing.getD FileSystem.newFileMode
    let started := fs.setContent k mode []
    match started.walk order enters root with
    | .error e => .error (.walk root e) (started.setContent k mode (encode []))
    | .ok visits =>
      let members := gather started k out.fileName? [] visits
      .ok members (started.setContent k mode (encode members))

end PluginManager.Archive
