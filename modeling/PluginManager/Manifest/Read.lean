import PluginManager.Failure
import PluginManager.FileSystem.Calls
import PluginManager.Manifest.Basic
import PluginManager.Text.Blank

/-!
# Manifests of plugins on disk

* `readDocument`: the JSON value in the manifest file of a plugin.
* `Component.ofListing`: an entry is a component when its path goes down into the plugin, leads to a
  directory, and leads out of the plugin through no link.
* `Manifest.ofDocument`: all entries are components, and neither name nor author is blank.
-/

namespace PluginManager

def manifestPath (root : Path) : Path := root.child manifestName

def readDocument (fs : FileSystem) (root : Path) : Except Failure Json :=
  let p := manifestPath root
  match fs.readFile p with
  | .error e => .error (.file p e)
  | .ok bytes =>
    match Json.parse bytes with
    | .error e => .error (.malformedJson p e)
    | .ok document => .ok document

/-! ## Components -/

/-- The last name of a path that only goes down. -/
def lastName : Option String → List Path.Component → Except ListingFault String
  | none, [] => .error .unnamed
  | some name, [] => .ok name
  | _, .normal name :: rest => lastName (some name) rest
  | found, .current :: rest => lastName found rest
  | _, .parent :: _ | _, .root :: _ => .error .outside

def Component.ofListing (fs : FileSystem) (root : Location) (l : Manifest.Listing) :
    Except ListingFault Component :=
  match Role.ofLabel? l.kind with
  | none => .error (.unknownRole l.kind)
  | some role =>
    match lastName none (Path.mk l.path).components with
    | .error fault => .error fault
    | .ok name =>
      match fs.find true ((Path.ofLocation root).join ⟨l.path⟩) with
      | .error _ => .error .missing
      | .ok (k, entry) =>
        if !FileSystem.isWithin root k then .error .outside
        else if !entry.isDirectory then .error .notDirectory
        else .ok ⟨l.path, role, name⟩

namespace Manifest

def components (fs : FileSystem) (root : Location) :
    Nat → List Listing → Except ManifestFault (List Component)
  | _, [] => .ok []
  | i, l :: rest =>
    match Component.ofListing fs root l with
    | .error fault => .error (.listing i l.path fault)
    | .ok c => (components fs root (i + 1) rest).map (c :: ·)

def ofDocument (fs : FileSystem) (root : Path) (document : Json) : Except Failure Manifest :=
  let fail (fault : ManifestFault) : Except Failure Manifest :=
    .error (.invalid (.manifest fault))
  match Draft.ofJson document with
  | .error e => fail (.shape e)
  | .ok draft =>
    if Text.isBlankText draft.name then fail .blankName
    else if Text.isBlankText draft.author then fail .blankAuthor
    else
      match fs.find true root with
      | .error e => .error (.file root e)
      | .ok (r, _) =>
        match components fs r 0 draft.installs with
        | .error fault => fail fault
        | .ok installs =>
          .ok ⟨draft.name, draft.author, draft.description.filter (· ≠ ""), installs⟩

def read (fs : FileSystem) (root : Path) : Except Failure Manifest :=
  match readDocument fs root with
  | .error e => .error e
  | .ok document => ofDocument fs root document

end Manifest

end PluginManager
