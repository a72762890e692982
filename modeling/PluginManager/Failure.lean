import PluginManager.Decode
import PluginManager.FileSystem.Error
import PluginManager.Json.Parser
import PluginManager.Role
import PluginManager.Schema.Compile

/-!
# Failures

Every way in which a plugin command can end badly.  None is recovered from: the command reports it
and stops.

* `Failure.message`: what happened, in words.
* `Failure.cause?`: the underlying reason, where a report repeats it.
-/

namespace PluginManager

/-- Why an entry of a manifest is no component. -/
inductive ListingFault where
  | unknownRole (label : String)
  | outside
  | unnamed
  | missing
  | notDirectory
  deriving DecidableEq, Repr

def unknownRoleMessage (label : String) : String :=
  "unknown component type: " ++ Text.quoted label ++ " (expected backend, admin, store or docker)"

def ListingFault.message : ListingFault → String
  | unknownRole label => unknownRoleMessage label
  | outside => "path must stay inside the plugin directory"
  | unnamed => "path must name a component directory"
  | missing => "component directory does not exist"
  | notDirectory => "path is not a directory"

def manifestName : String := "manifest.json"

inductive ManifestFault where
  | shape (cause : Mismatch)
  | blankName
  | blankAuthor
  | listing (index : Nat) (path : String) (fault : ListingFault)
  deriving DecidableEq, Repr

def ManifestFault.message (f : ManifestFault) : String :=
  manifestName ++ ": " ++
    match f with
    | shape cause => cause.message
    | blankName => "name must not be empty"
    | blankAuthor => "author must not be empty"
    | listing index path fault =>
      "installs[" ++ toString index ++ "] (" ++ path ++ "): " ++ fault.message

/-- A rule of the program that the input breaks. -/
inductive Invalid where
  | manifest (fault : ManifestFault)
  | schema (violations : List Schema.Violation)
  | missingFile (role : Role) (component file : Path)
  | archiveName (name : String)
  | noTarget (role : Role)
  | refused (reason : String)
  deriving Repr

def Invalid.message : Invalid → String
  | manifest fault => fault.message
  | schema violations =>
    "manifest does not match the plugin schema:\n" ++
      "\n".intercalate (violations.map Schema.Violation.line)
  | missingFile role component file =>
    "Plugin's " ++ role.label ++ " component " ++ component.text ++ " does not include " ++
      file.text
  | archiveName name =>
    "plugin name " ++ Text.quoted name ++ " cannot be used as an archive file name"
  | noTarget role =>
    "no target repository given for " ++ role.label ++ " components (use --target " ++ role.label ++
      "=<dir>)"
  | refused reason => reason

inductive Failure where
  | file (path : Path) (cause : FileError)
  | walk (root : Path) (cause : FileError)
  | malformedJson (path : Path) (cause : Json.SyntaxError)
  | invalid (rule : Invalid)
  | targetRepository (role : Role) (path : Path)
  | unknownRole (label : String)
  | network (url reason : String)
  | schemaDocument (defect : Schema.Defect)
  | noTerminal
  | schemaUrl (url : String)
  deriving Repr

namespace Failure

def walkMessage (root : Path) (cause : FileError) : String :=
  root.text ++ ": IO error for operation on " ++ root.text ++ ": " ++ cause.message

def noTerminalReason : String := "The input device is not a TTY"

def message : Failure → String
  | file path cause => path.text ++ ": " ++ cause.message
  | walk root cause => root.text ++ ": " ++ walkMessage root cause
  | malformedJson path cause => path.text ++ ": malformed JSON: " ++ cause.message
  | invalid rule => rule.message
  | targetRepository role path =>
    path.text ++ " does not look to be a cloned " ++ role.repository ++ " repository (" ++
      role.marker ++ " is missing)"
  | unknownRole label => unknownRoleMessage label
  | network url reason => "failed to fetch schema from " ++ url ++ ": " ++ reason
  | schemaDocument defect => "invalid schema document: " ++ defect.message
  | noTerminal => "prompt failed: " ++ noTerminalReason
  | schemaUrl url =>
    "invalid schema URL " ++ Text.quoted url ++
      ": only bitcartcc-hosted versioned schema URLs are supported"

def cause? : Failure → Option String
  | file _ cause => some cause.message
  | walk root cause => some (walkMessage root cause)
  | malformedJson _ cause => some cause.message
  | network _ reason => some reason
  | noTerminal => some noTerminalReason
  | _ => none

/-- The message followed by its cause. -/
def report (f : Failure) : String :=
  match f.cause? with
  | none => f.message
  | some cause => f.message ++ ": " ++ cause

/-- Failures of the file system itself. -/
def isFile : Failure → Bool
  | file .. | walk .. => true
  | _ => false

end Failure

end PluginManager
