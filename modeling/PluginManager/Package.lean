import PluginManager.Archive.Create
import PluginManager.FileSystem.Tree
import PluginManager.Manifest.Read

/-!
# Packaging

A plugin becomes an archive in its own directory, named after it, without build artifacts.

* `stripArtifacts`: deletes directories and files of certain names, wherever they are; nothing
  inside a directory that goes is looked at.
* `package`: reads the manifest, checks the name, strips, archives.
-/

namespace PluginManager

structure PackageOptions where
  strip : Bool
  stripDirs : List String
  stripFiles : List String
  extension : String
  sorted : Bool
  deriving DecidableEq, Repr

namespace Package

open FileSystem (Visit)

/-! ## Artifacts -/

def entersOutside (dirs : List String) (v : Visit) : Bool :=
  v.depth ≤ 1 || !(v.parentName?.any fun name => dirs.contains name)

def isArtifact (dirs files : List String) (v : Visit) : Bool :=
  if v.entry.isDirectory then dirs.contains v.name else files.contains v.name

/-- The paths that are deleted, in the order in which they were met. -/
def stripArtifacts (root : Path) (dirs files : List String) : Task (List Path) := fun fs =>
  match fs.walk .enumeration (entersOutside dirs) root with
  | .error e => .error (.walk root e) fs
  | .ok visits =>
    let doomed := (visits.filter (isArtifact dirs files)).map Visit.path
    match (doomed.forM fun p => Task.forPath p (FileSystem.removeAll p) : Task Unit) fs with
    | .error e fs => .error e fs
    | .ok _ fs => .ok doomed fs

/-! ## Archives -/

/-- The archive and its members. -/
structure Packed where
  path : Path
  members : List Member

def archiveName (name : String) (options : PackageOptions) : String :=
  name ++ "." ++ options.extension

def isOneComponent (name : String) : Bool := (Path.mk name).components.length = 1

def package (root : Path) (options : PackageOptions) : Task Packed := do
  let manifest ← Task.ofExcept (Manifest.read (← get) root)
  let name := archiveName manifest.name options
  if !isOneComponent name then throw (.invalid (.archiveName manifest.name))
  if options.strip then
    let _ ← stripArtifacts root options.stripDirs options.stripFiles
  let out := root.child name
  let members ←
    Archive.createArchive root out (if options.sorted then .sorted else .enumeration)
  return ⟨out, members⟩

end Package

end PluginManager
