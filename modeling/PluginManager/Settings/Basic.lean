import PluginManager.Decode
import PluginManager.FileSystem.Error
import PluginManager.Path
import PluginManager.Text.Blank

/-!
# Settings

What the user may choose, and where the user's files are.

* `expandHome`: a tilde at the front stands for the home directory.
* `typedAnswer`: what is typed for a path.
* `SettingsError.message`: why there are no settings, or none that can be used.
-/

namespace PluginManager

/-! ## The user's directories -/

/-- A user need not have a home directory.  The variables that could put the directories below
elsewhere are taken as not set: those of the XDG base directories, and the one for temporary
files. -/
structure Environment where
  home : Option String
  deriving DecidableEq, Repr

def programName : String := "bitcart-plugin"

namespace Environment

def below? (e : Environment) (names : List String) : Option Path :=
  e.home.map fun home => names.foldl Path.child ⟨home⟩

def configFile? (e : Environment) : Option Path :=
  e.below? [".config", programName, "config.toml"]

def cacheDirectory? (e : Environment) : Option Path := e.below? [".cache", programName]

/-- Without a home directory, a directory for temporary files. -/
def logDirectory (e : Environment) : Path :=
  (e.below? [".local", "share", programName]).getD (Path.child ⟨"/tmp"⟩ programName)

end Environment

/-- None where the home directory is asked for and there is none. -/
def expandHome (e : Environment) (text : String) : Option Path :=
  match text.toList with
  | '~' :: rest => e.home.map fun home => ⟨home ++ String.ofList rest⟩
  | _ => some ⟨text⟩

/-- A path as it is typed at a terminal: blanks around it are dropped, and a tilde stays where there
is no home directory. -/
def typedAnswer (e : Environment) (text : String) : Path :=
  (expandHome e (Text.trim text)).getD ⟨Text.trim text⟩

/-! ## Settings -/

structure PackageSettings where
  extension : String
  stripDirs : List String
  stripFiles : List String
  sortEntries : Bool
  deriving DecidableEq, Repr

structure SchemaSettings where
  url : String
  maxAgeDays : Nat
  cacheDir : Option String
  deriving DecidableEq, Repr

structure TargetSettings where
  backend : Option String
  admin : Option String
  store : Option String
  docker : Option String
  deriving DecidableEq, Repr

structure Settings where
  logFilter : String
  schema : SchemaSettings
  package : PackageSettings
  targets : TargetSettings
  deriving DecidableEq, Repr

/-- A mismatch and the keys that lead to it. -/
structure SettingsFault where
  cause : Mismatch
  keys : List String
  deriving DecidableEq, Repr

def SettingsFault.message (f : SettingsFault) : String :=
  f.cause.message ++ "\n" ++
    (if f.keys = [] then "" else "in \u0060" ++ ".".intercalate f.keys ++ "\u0060\n")

inductive SettingsError where
  | unreadable (path : Path) (cause : FileError)
  | notToml (path : Path)
  | wrong (fault : SettingsFault)
  | noHome
  | noCacheDirectory
  deriving DecidableEq, Repr

def SettingsError.message : SettingsError → String
  | unreadable path cause => "reading config " ++ path.text ++ ": " ++ cause.message
  | notToml path => "parsing config " ++ path.text
  | wrong fault => "invalid configuration: " ++ fault.message
  | noHome => "cannot determine home directory"
  | noCacheDirectory => "cannot determine user cache directory"

end PluginManager
