import PluginManager.FileSystem.Basic
import PluginManager.FileSystem.Error

/-!
# Following paths

A path is followed name by name from the working directory, or from the root directory when it is
absolute.  On the way every symbolic link is replaced by its target; at the end only where the
caller asks for it.

* `pass`: goes on until the end or the first link.
* `resolve`: at most forty links, names of at most 255 bytes, paths of less than 4096 bytes.
* `find`: what is there, a trailing slash asking for a directory.
-/

namespace PluginManager.FileSystem

/-- The kind of the last piece of a path that was followed. -/
inductive LastPiece where
  | root
  | current
  | parent
  | name
  deriving DecidableEq, Repr

/-- Where a path leads: an entry, or a free name in an existing directory. -/
structure Spot where
  location : Location
  entry : Option Entry
  last : LastPiece
  slash : Bool
  deriving Repr

inductive Stop where
  | arrived (spot : Spot)
  | link (directory : Location) (target : Path) (rest : List String)

def nameLimit : Nat := 255
def pathLimit : Nat := 4096
def linkLimit : Nat := 40

/-- Pieces that stand for a step. -/
def steps (p : Path) : List String := p.pieces.filter (· ≠ "")

def pass (fs : FileSystem) (follow slash : Bool) :
    Location → LastPiece → List String → Except FileError Stop
  | l, last, [] => .ok (.arrived ⟨l, fs.lookup l, last, slash⟩)
  | l, _, piece :: rest =>
    if piece = "." then pass fs follow slash l .current rest
    else if piece = ".." then pass fs follow slash l.dropLast .parent rest
    else if nameLimit < piece.utf8ByteSize then .error .nameTooLong
    else
      let k := l ++ [piece]
      match fs.lookup k with
      | none => if rest.isEmpty then .ok (.arrived ⟨k, none, .name, slash⟩) else .error .notFound
      | some (.directory _) => pass fs follow slash k .name rest
      | some (.file mode content) =>
        if rest.isEmpty then .ok (.arrived ⟨k, some (.file mode content), .name, slash⟩)
        else .error .notDirectory
      | some (.link target) =>
        if rest.isEmpty && !follow then .ok (.arrived ⟨k, some (.link target), .name, slash⟩)
        else .ok (.link l target rest)

/-- Follows at most `links` links. -/
def follow (fs : FileSystem) (last : Bool) :
    Nat → Bool → Location → List String → Except FileError Spot
  | links, slash, l, pieces =>
    match pass fs last slash l .root pieces with
    | .error e => .error e
    | .ok (.arrived spot) => .ok spot
    | .ok (.link directory target rest) =>
      match links with
      | 0 => .error .tooManyLinks
      | links + 1 =>
        follow fs last links (slash || (rest.isEmpty && target.endsWithSlash))
          (if target.isAbsolute then [] else directory) (steps target ++ rest)

def hasNul (p : Path) : Bool := p.text.toList.any (· = '\x00')

def resolve (fs : FileSystem) (last : Bool) (p : Path) : Except FileError Spot :=
  let start := if p.isAbsolute then [] else fs.workingDirectory
  if hasNul p then .error .nulByte
  else if p.text = "" then .error .notFound
  else if pathLimit ≤ p.text.utf8ByteSize then .error .nameTooLong
  else if !fs.isDirectoryAt start then .error .notFound
  else follow fs last linkLimit p.endsWithSlash start (steps p)

/-! ## What a path leads to -/

/-- The entry at the end of a path; with `last` a link at the end is followed too. -/
def find (fs : FileSystem) (last : Bool) (p : Path) : Except FileError (Location × Entry) :=
  match resolve fs (last || p.endsWithSlash) p with
  | .error e => .error e
  | .ok spot =>
    match spot.entry with
    | none => .error .notFound
    | some e =>
      if spot.slash && !e.isDirectory then .error .notDirectory else .ok (spot.location, e)

def exists? (fs : FileSystem) (p : Path) : Bool :=
  match fs.find true p with
  | .ok _ => true
  | .error _ => false

def isDirectory (fs : FileSystem) (p : Path) : Bool :=
  match fs.find true p with
  | .ok (_, e) => e.isDirectory
  | .error _ => false

def isFile (fs : FileSystem) (p : Path) : Bool :=
  match fs.find true p with
  | .ok (_, e) => e.isFile
  | .error _ => false

end FileSystem

/-- The absolute path of a location. -/
def Path.ofLocation (l : Location) : Path := ⟨"/" ++ "/".intercalate l⟩

namespace FileSystem

/-- The absolute path without links to what a path leads to.  It may be longer than a path that is
given: the limit is not put to it. -/
def canonical (fs : FileSystem) (p : Path) : Except FileError Path :=
  (fs.find true p).map fun (l, _) => .ofLocation l

/-- The same place seen from the root directory, links and `..` left as they are. -/
def absolute (fs : FileSystem) (p : Path) : Except FileError Path :=
  match p.absoluteFrom? (.ofLocation fs.workingDirectory) with
  | none => .error .emptyPath
  | some q => .ok q

end PluginManager.FileSystem
