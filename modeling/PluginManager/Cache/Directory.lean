import PluginManager.Cache.Procedure
import PluginManager.FileSystem.Tree

/-!
# A store in a directory

Files are written beside their place and then moved there, so that a reader finds the old bytes or
the new ones, never a part.

* `Faults`: how the device may give out during a write, which no file system tells beforehand.
* `CacheDirectory.step`: one file operation of a write; a write takes at most four.
* `CacheDirectory.store`: the directory as a store.
-/

namespace PluginManager.Cache

/-- The directory, and the number of the process that writes to it. -/
structure CacheDirectory where
  path : Path
  process : Nat
  deriving DecidableEq, Repr

/-- Where the device gives out during a write, and the errors that it gives.  Of the directories to
be made some may not be reached; the temporary file may not be opened, or be left with no more than
the first of its bytes; it may not be moved, and it may not be taken away again. -/
structure Faults where
  making : Option (Nat × FileError)
  writing : Option (Option Nat × FileError)
  moving : Option FileError
  discarding : Option FileError
  deriving DecidableEq, Repr

def Faults.none : Faults := ⟨.none, .none, .none, .none⟩

inductive WriteStage where
  | makeDirectory
  | writeTemporary
  | moveIntoPlace
  | discard (cause : FileError)
  | finished (result : Except Failure Unit)

namespace CacheDirectory

def file (d : CacheDirectory) (key : String) : Path := d.path.child key

def temporary (d : CacheDirectory) (key : String) : Path :=
  d.path.child ("." ++ key ++ "." ++ toString d.process ++ ".tmp")

/-! ## Writing -/

/-- Makes the directories.  Where the device gives out, the innermost of them are not made. -/
def makeDirectories (d : CacheDirectory) (fault : Option (Nat × FileError)) (fs : FileSystem) :
    WriteStage × FileSystem :=
  let failed (e : FileError) := WriteStage.finished (.error (.file d.path e))
  match fault with
  | none =>
    match FileSystem.createDirectories d.path fs with
    | .ok () fs => (.writeTemporary, fs)
    | .error e fs => (failed e, fs)
  | some (unreached, cause) =>
    match FileSystem.createFirst (d.path.ancestors.drop unreached) fs with
    | .ok () fs => (failed cause, fs)
    | .error e fs => (failed e, fs)

def writeBeside (d : CacheDirectory) (key : String) (bytes : Bytes)
    (fault : Option (Option Nat × FileError)) (fs : FileSystem) : WriteStage × FileSystem :=
  let failed (e : FileError) := WriteStage.finished (.error (.file (d.temporary key) e))
  match fault with
  | none =>
    match fs.writeFile (d.temporary key) bytes with
    | .ok fs => (.moveIntoPlace, fs)
    | .error e => (failed e, fs)
  | some (none, cause) => (failed cause, fs)
  | some (some count, cause) =>
    match fs.writeFile (d.temporary key) (bytes.take count) with
    | .ok fs => (failed cause, fs)
    | .error e => (failed e, fs)

def step (d : CacheDirectory) (key : String) (bytes : Bytes) (faults : Faults)
    (stage : WriteStage) (fs : FileSystem) : WriteStage × FileSystem :=
  match stage with
  | .makeDirectory => d.makeDirectories faults.making fs
  | .writeTemporary => d.writeBeside key bytes faults.writing fs
  | .moveIntoPlace =>
    match faults.moving with
    | some cause => (.discard cause, fs)
    | none =>
      match fs.rename (d.temporary key) (d.file key) with
      | .ok fs => (.finished (.ok ()), fs)
      | .error e => (.discard e, fs)
  | .discard e =>
    -- What goes wrong here is not reported.
    let failed := WriteStage.finished (.error (.file (d.file key) e))
    match faults.discarding with
    | some _ => (failed, fs)
    | none =>
      match fs.removeFile (d.temporary key) with
      | .ok fs => (failed, fs)
      | .error _ => (failed, fs)
  | .finished result => (.finished result, fs)

def steps (d : CacheDirectory) (key : String) (bytes : Bytes) (faults : Faults) :
    Nat → WriteStage → FileSystem → WriteStage × FileSystem
  | 0, stage, fs => (stage, fs)
  | n + 1, stage, fs =>
    let (stage, fs) := d.step key bytes faults stage fs
    steps d key bytes faults n stage fs

def writeLength : Nat := 4

/-- All steps of a write, on a device that may give out. -/
def attempt (d : CacheDirectory) (faults : Faults) (fs : FileSystem) (key : String)
    (bytes : Bytes) : Except Failure Unit × FileSystem :=
  match d.steps key bytes faults writeLength .makeDirectory fs with
  | (.finished result, fs) => (result, fs)
  | (_, fs) => (.ok (), fs)

def write (d : CacheDirectory) : FileSystem → String → Bytes → Except Failure Unit × FileSystem :=
  d.attempt .none

/-! ## Reading -/

def absentIfNotFound {α : Type} (p : Path) : Except FileError α → Except Failure (Option α)
  | .ok a => .ok (some a)
  | .error .notFound => .ok none
  | .error e => .error (.file p e)

def read (d : CacheDirectory) (fs : FileSystem) (key : String) : Except Failure (Option Bytes) :=
  absentIfNotFound (d.file key) (fs.readFile (d.file key))

def modifiedAt (d : CacheDirectory) (fs : FileSystem) (key : String) :
    Except Failure (Option Int) :=
  absentIfNotFound (d.file key) (fs.modifiedAt (d.file key))

def store (d : CacheDirectory) : Store FileSystem where
  read := d.read
  write := d.write
  modifiedAt := d.modifiedAt
  now := FileSystem.clock

end CacheDirectory

end PluginManager.Cache
