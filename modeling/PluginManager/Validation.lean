import PluginManager.Manifest.Read

/-!
# Valid plugins

A plugin is valid when its document agrees with the schema, is a manifest, and every component
ships the files its role requires.

* `checkComponents`: the first required file that is missing, in the order of the entries and then
  of the files.
* `validate`: the three stages in order.
-/

namespace PluginManager

/-- The first file of the role that is no regular file below the component. -/
def Component.missingFile? (fs : FileSystem) (root : Path) (c : Component) : Option Path :=
  c.role.requiredFiles.find? fun file => !fs.isFile ((c.source root).join file)

def checkComponents (fs : FileSystem) (root : Path) : List Component → Except Failure Unit
  | [] => .ok ()
  | c :: rest =>
    match c.missingFile? fs root with
    | some file => .error (.invalid (.missingFile c.role (c.source root) file))
    | none => checkComponents fs root rest

def validateWith (fs : FileSystem) (violations : Json → List Schema.Violation) (root : Path)
    (document : Json) : Except Failure Manifest :=
  match violations document with
  | [] =>
    match Manifest.ofDocument fs root document with
    | .error e => .error e
    | .ok manifest => (checkComponents fs root manifest.installs).map fun () => manifest
  | vs => .error (.invalid (.schema vs))

def validate (fs : FileSystem) (schema : Schema) (root : Path) (document : Json) :
    Except Failure Manifest :=
  validateWith fs schema.check root document

def checkDocument (schema : Schema) (document : Json) : Except Failure Unit :=
  match schema.check document with
  | [] => .ok ()
  | vs => .error (.invalid (.schema vs))

end PluginManager
