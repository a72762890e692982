import PluginManager.FileSystem.Resolve

/-!
# Single file operations

Each looks at a file system or changes it in one step; when it fails nothing is changed.  A device
that gives out halfway through is none of the failures here (`Cache.Faults` has them).

* Looking: `readFile`, `readText`, `readDirectory`, `readLink`, `modifiedAt`.
* Changing: `makeDirectory`, `writeFile`, `copyFile`, `makeLink`, `setMode`, `removeFile`,
  `removeDirectory`, `rename`, `setTime`.
-/

namespace PluginManager.FileSystem

/-! ## Looking -/

def readFile (fs : FileSystem) (p : Path) : Except FileError Bytes :=
  match fs.find true p with
  | .error e => .error e
  | .ok (_, .file _ content) => .ok content
  | .ok _ => .error .isDirectory

def readText (fs : FileSystem) (p : Path) : Except FileError String :=
  match fs.readFile p with
  | .error e => .error e
  | .ok bytes =>
    match Text.decode? bytes with
    | none => .error .notText
    | some s => .ok s

def readDirectory (fs : FileSystem) (p : Path) : Except FileError (List String) :=
  match fs.find true p with
  | .error e => .error e
  | .ok (l, .directory _) => .ok (fs.names l)
  | .ok _ => .error .notDirectory

def readLink (fs : FileSystem) (p : Path) : Except FileError Path :=
  match fs.find false p with
  | .error e => .error e
  | .ok (_, .link target) => .ok target
  | .ok _ => .error .invalidArgument

def mode (fs : FileSystem) (p : Path) : Except FileError Nat :=
  match fs.find true p with
  | .error e => .error e
  | .ok (_, .file mode _) => .ok mode
  | .ok (_, .directory mode) => .ok mode
  | .ok (_, .link _) => .error .notFound

def modifiedAt (fs : FileSystem) (p : Path) : Except FileError Int :=
  (fs.find true p).map fun (l, _) => fs.time l

/-! ## Changing -/

def newFileMode : Nat := 0o644
def newDirectoryMode : Nat := 0o755

/-- The location of a free name; `taken` is the error where there is something. -/
def freeSpot (fs : FileSystem) (p : Path) : Except FileError Spot :=
  match fs.resolve false p with
  | .error e => .error e
  | .ok spot =>
    if spot.last ≠ .name || spot.entry.isSome then .error .alreadyExists else .ok spot

def makeDirectory (fs : FileSystem) (p : Path) : Except FileError FileSystem :=
  (fs.freeSpot p).map fun spot =>
    (fs.insert spot.location (.directory newDirectoryMode)).touchAt spot.location fs.clock

def makeLink (fs : FileSystem) (target p : Path) : Except FileError FileSystem :=
  if hasNul target || hasNul p then .error .nulByte
  else if target.text = "" then .error .notFound
  else if pathLimit ≤ target.text.utf8ByteSize then .error .nameTooLong
  else
    match fs.freeSpot p with
    | .error e => .error e
    | .ok spot =>
      if spot.slash then .error .notFound else .ok (fs.insert spot.location (.link target))

/-- The location of a file that may be written, and its mode if it is there already. -/
def writable (fs : FileSystem) (p : Path) : Except FileError (Location × Option Nat) :=
  match fs.resolve (!p.endsWithSlash) p with
  | .error e => .error e
  | .ok spot =>
    if spot.slash || spot.last ≠ .name then .error .isDirectory
    else
      match spot.entry with
      | none => .ok (spot.location, none)
      | some (.file mode _) => .ok (spot.location, some mode)
      | some _ => .error .isDirectory

def setContent (fs : FileSystem) (l : Location) (mode : Nat) (content : Bytes) : FileSystem :=
  (fs.insert l (.file mode content)).touchAt l fs.clock

/-- It fails where the file cannot be opened, which is before anything of it is changed. -/
def writeFile (fs : FileSystem) (p : Path) (content : Bytes) : Except FileError FileSystem :=
  (fs.writable p).map fun (l, mode) => fs.setContent l (mode.getD newFileMode) content

/-- The file at `destination` gets the mode of the one at `source` and what is left in that when
the destination has been emptied. -/
def copyFile (fs : FileSystem) (source destination : Path) : Except FileError FileSystem :=
  match fs.find true source with
  | .error e => .error e
  | .ok (k, .file mode content) =>
    (fs.writable destination).map fun (l, _) =>
      fs.setContent l mode (if k = l then [] else content)
  | .ok _ => .error .invalidArgument

def setMode (fs : FileSystem) (p : Path) (mode : Nat) : Except FileError FileSystem :=
  (fs.find true p).map fun (l, e) => if l = [] then fs else fs.insert l (e.setMode mode)

def setTime (fs : FileSystem) (p : Path) (time : Int) : Except FileError FileSystem :=
  (fs.find true p).map fun (l, _) => fs.touchAt l time

/-- Removes a file or a link, never a directory. -/
def removeFile (fs : FileSystem) (p : Path) : Except FileError FileSystem :=
  match fs.resolve false p with
  | .error e => .error e
  | .ok spot =>
    if spot.last ≠ .name then .error .isDirectory
    else
      match spot.entry with
      | none => .error .notFound
      | some (.directory _) => .error .isDirectory
      | some _ => if spot.slash then .error .notDirectory else .ok (fs.erase spot.location)

/-- Removes an empty directory. -/
def removeDirectory (fs : FileSystem) (p : Path) : Except FileError FileSystem :=
  match fs.resolve false p with
  | .error e => .error e
  | .ok spot =>
    match spot.last with
    | .root => .error .busy
    | .current => .error .invalidArgument
    | .parent => .error .notEmpty
    | .name =>
      match spot.entry with
      | none => .error .notFound
      | some (.directory _) =>
        if (fs.names spot.location).isEmpty then .ok (fs.erase spot.location) else .error .notEmpty
      | some _ => .error .notDirectory

/-- Gives a file or link a new path, in place of a file or link that is there. -/
def rename (fs : FileSystem) (old new : Path) : Except FileError FileSystem :=
  match fs.resolve false old, fs.resolve false new with
  | .error e, _ => .error e
  | _, .error e => .error e
  | .ok source, .ok spot =>
    if source.last ≠ .name || spot.last ≠ .name then .error .busy
    else
      match source.entry with
      | none => .error .notFound
      | some (.directory _) => .error .invalidArgument
      | some e =>
        if source.slash || spot.slash then .error .notDirectory
        else if spot.entry.any Entry.isDirectory then .error .isDirectory
        else if source.location = spot.location then .ok fs
        else
          .ok (((fs.erase source.location).insert spot.location e).touchAt spot.location
            (fs.time source.location))

end PluginManager.FileSystem
