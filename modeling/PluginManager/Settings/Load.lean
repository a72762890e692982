import PluginManager.FileSystem.Calls
import PluginManager.Package
import PluginManager.Settings.Read
import PluginManager.Target
import PluginManager.Text.Blank
import PluginManager.Toml.Document

/-!
# Loading settings

Settings are the built-in defaults with the user's file laid over them, table by table.

* `Settings.load`: an explicit file has to exist, the user's own may be missing.
* `Settings.maxAgeSeconds?`: none when the number of seconds does not fit in 64 bits.
* `Settings.cacheDirectory`, `Settings.presets`: what the settings leave to the home directory.
-/

namespace PluginManager

namespace Settings

/-! ## Loading -/

def defaults : List (String × Toml) :=
  [("general", .table [("log_filter", .string "bitcart_plugin=info")]),
    ("package",
      .table
        [("extension", .string "bitcartcc"), ("sort_entries", .boolean false),
          ("strip_dirs", .array [.string "node_modules", .string "__pycache__"]),
          ("strip_files", .array [.string "yarn.lock", .string "package-lock.json"])]),
    ("schema",
      .table
        [("max_age_days", .integer 7),
          ("url", .string "https://bitcartcc.com/schemas/plugin/1.1.0/plugin.schema.json")]),
    ("targets", .table [])]

/-- The settings for a user's document. -/
def ofUser (user : List (String × Toml)) : Except SettingsFault Settings :=
  ofToml (Toml.mergeFields defaults user)

/-- The file to read, if there is one. -/
def userFile? (fs : FileSystem) (e : Environment) : Option Path → Option Path
  | some p => some p
  | none => e.configFile?.filter fs.exists?

def load (fs : FileSystem) (e : Environment) (explicit : Option Path) :
    Except SettingsError Settings :=
  let finish (user : List (String × Toml)) : Except SettingsError Settings :=
    (ofUser user).mapError SettingsError.wrong
  match userFile? fs e explicit with
  | none => finish []
  | some p =>
    match fs.readText p with
    | .error cause => .error (.unreadable p cause)
    | .ok text =>
      match Toml.parse text with
      | none => .error (.notToml p)
      | some user => finish user

/-! ## Use -/

/-- A path in the settings. -/
def expand (e : Environment) (text : String) : Except SettingsError Path :=
  match expandHome e text with
  | some p => .ok p
  | none => .error .noHome

def cacheDirectory (s : Settings) (e : Environment) : Except SettingsError Path :=
  match s.schema.cacheDir with
  | some text => expand e text
  | none =>
    match e.cacheDirectory? with
    | some p => .ok p
    | none => .error .noCacheDirectory

def maxAgeSeconds? (s : Settings) : Option Nat :=
  let seconds := s.schema.maxAgeDays * 24 * 60 * 60
  if seconds < Nat.pow 2 64 then some seconds else none

def target (s : Settings) : Role → Option String
  | .backend => s.targets.backend
  | .admin => s.targets.admin
  | .store => s.targets.store
  | .docker => s.targets.docker

/-- The root that the settings give for a role, unless it is blank. -/
def preset (s : Settings) (e : Environment) (role : Role) : Except SettingsError (Option Path) :=
  match s.target role with
  | none => .ok none
  | some text => if Text.isBlankText text then .ok none else (expand e text).map some

/-- Keeps the root for one more role. -/
def addPreset (s : Settings) (e : Environment) (p : Presets) (role : Role) :
    Except SettingsError Presets := do
  match ← s.preset e role with
  | none => return p
  | some root => return p.set role root

/-- The roots for all roles; one that cannot be expanded fails, whether it is asked for or not. -/
def presets (s : Settings) (e : Environment) : Except SettingsError Presets :=
  Role.all.foldlM (s.addPreset e) Presets.none

def packageOptions (s : Settings) (strip : Bool) : PackageOptions where
  strip := strip
  stripDirs := s.package.stripDirs
  stripFiles := s.package.stripFiles
  extension := s.package.extension
  sorted := s.package.sortEntries

end Settings

end PluginManager
