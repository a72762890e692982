import PluginManager.Cache.Directory
import PluginManager.Cache.Prepare
import PluginManager.CommandLine.Parser
import PluginManager.Install
import PluginManager.Package
import PluginManager.Settings.Load
import PluginManager.Validation

/-!
# The program

A command is carried out under the settings and leaves a report or a problem, and a file system.

* `Application.targets`: roots on the command line come before those in the settings.
* `Application.execute`: one command.
* `Application.run`: a whole invocation, with its exit code and what it prints.
-/

namespace PluginManager

/-! ## Problems -/

/-- What was being done when a command failed. -/
inductive Activity where
  | installing (plugin : Path)
  | uninstalling (plugin : Path)
  | preparingSchema
  | validating (plugin : Path)
  | packaging (plugin : Path)
  deriving DecidableEq, Repr

def Activity.phrase : Activity → String
  | installing plugin => "installing plugin " ++ plugin.text
  | uninstalling plugin => "uninstalling plugin " ++ plugin.text
  | preparingSchema => "preparing plugin schema"
  | validating plugin => "validating plugin " ++ plugin.text
  | packaging plugin => "packaging plugin " ++ plugin.text

inductive Problem where
  | settings (error : SettingsError)
  | logDirectory (error : FileError)
  | command (during : Option Activity) (failure : Failure)
  | ageOverflow
  deriving Repr

namespace Problem

def report : Problem → String
  | settings error => error.message
  | logDirectory error => error.message
  | command none failure => failure.report
  | command (some activity) failure => activity.phrase ++ ": " ++ failure.report
  | ageOverflow => "attempt to multiply with overflow"

def exitCode : Problem → Nat
  | ageOverflow => 101
  | _ => 1

end Problem

/-! ## Commands -/

/-- What a run depends on besides its words and the file system. -/
structure Application where
  environment : Environment
  process : Nat
  fetch : Cache.Fetch

namespace Application

def targets (a : Application) (s : Settings) (given : List (Role × Path)) :
    Except SettingsError Targets := do
  let presets ← s.presets a.environment
  return ⟨presets.override given, some Prompt.noTerminal⟩

def lines (texts : List String) : String := String.join (texts.map (· ++ "\n"))

def install (a : Application) (s : Settings) (plugin : Path) (mode : InstallMode)
    (given : List (Role × Path)) (fs : FileSystem) : Except Problem String × FileSystem :=
  match a.targets s given with
  | .error e => (.error (.settings e), fs)
  | .ok targets =>
    match Session.install mode targets plugin .start fs with
    | (.error f, _, fs) => (.error (.command (some (.installing plugin)) f), fs)
    | (.ok actions, _, fs) =>
      let placed := actions.map fun x => x.role.label ++ " -> " ++ x.destination.text
      (.ok (lines (placed ++ ["Plugin installed"])), fs)

def uninstall (a : Application) (s : Settings) (plugin : Path) (given : List (Role × Path))
    (fs : FileSystem) : Except Problem String × FileSystem :=
  match a.targets s given with
  | .error e => (.error (.settings e), fs)
  | .ok targets =>
    match Session.uninstall targets plugin .start fs with
    | (.error f, _, fs) => (.error (.command (some (.uninstalling plugin)) f), fs)
    | (.ok actions, _, fs) =>
      let removed := actions.map fun x => "removed " ++ x.destination.text
      (.ok (lines (removed ++ ["Plugin uninstalled"])), fs)

def validationReport (m : Manifest) : String :=
  let about :=
    match m.description with
    | none => []
    | some text => [m.name ++ " by " ++ m.author ++ ": " ++ text]
  lines (about ++ ["Plugin is valid!"])

def checkPlugin (fs : FileSystem) (schema : Schema) (plugin : Path) : Except Problem String :=
  match readDocument fs plugin with
  | .error f => .error (.command none f)
  | .ok document =>
    match PluginManager.validate fs schema plugin document with
    | .error f => .error (.command (some (.validating plugin)) f)
    | .ok manifest => .ok (validationReport manifest)

def validate (a : Application) (s : Settings) (plugin : Path) (url : Option String)
    (fs : FileSystem) : Except Problem String × FileSystem :=
  match s.cacheDirectory a.environment with
  | .error e => (.error (.settings e), fs)
  | .ok directory =>
    match s.maxAgeSeconds? with
    | none => (.error .ageOverflow, fs)
    | some maxAge =>
      let cache : Cache.CacheDirectory := ⟨directory, a.process⟩
      let prepared :=
        (Cache.prepare maxAge (url.getD s.schema.url)).run cache.store a.fetch fs
      match prepared.result with
      | .error f => (.error (.command (some .preparingSchema) f), prepared.store)
      | .ok schema => (checkPlugin prepared.store schema plugin, prepared.store)

def package (s : Settings) (plugin : Path) (strip sorted : Bool) (fs : FileSystem) :
    Except Problem String × FileSystem :=
  let options := s.packageOptions strip
  match (Package.package plugin { options with sorted := options.sorted || sorted }).run fs with
  | (.error f, fs) => (.error (.command (some (.packaging plugin)) f), fs)
  | (.ok packed, fs) => (.ok (lines ["Plugin packaged to " ++ packed.path.text]), fs)

def execute (a : Application) (s : Settings) (c : Command) (fs : FileSystem) :
    Except Problem String × FileSystem :=
  match c with
  | .install plugin mode given => a.install s plugin mode given fs
  | .uninstall plugin given => a.uninstall s plugin given fs
  | .validate plugin url => a.validate s plugin url fs
  | .package plugin strip sorted => package s plugin strip sorted fs

/-- Loads the settings, then carries out the command. -/
def perform (a : Application) (i : Invocation) (fs : FileSystem) :
    Except Problem String × FileSystem :=
  match Settings.load fs a.environment i.settings with
  | .error e => (.error (.settings e), fs)
  | .ok s => a.execute s i.command fs

/-- As `perform`, with a directory for logs made in between. -/
def performLogged (a : Application) (i : Invocation) (fs : FileSystem) :
    Except Problem String × FileSystem :=
  match Settings.load fs a.environment i.settings with
  | .error e => (.error (.settings e), fs)
  | .ok s =>
    match FileSystem.createDirectories a.environment.logDirectory fs with
    | .error e fs => (.error (.logDirectory e), fs)
    | .ok () fs => a.execute s i.command fs

/-! ## Whole runs -/

def versionText : String := programName ++ " 0.2.2"

structure Ending where
  exitCode : Nat
  output : String
  errors : String
  deriving DecidableEq, Repr

def Ending.ofUsage : UsageError → Ending
  | .version => ⟨0, lines [versionText], ""⟩
  | e => ⟨e.exitCode, "", lines e.detail?.toList⟩

def Ending.ofProblem (p : Problem) : Ending := ⟨p.exitCode, "", lines ["Error: " ++ p.report]⟩

def run (a : Application) (words : List String) (fs : FileSystem) : Ending × FileSystem :=
  match Invocation.parse words with
  | .error e => (Ending.ofUsage e, fs)
  | .ok i =>
    match a.performLogged i fs with
    | (.error p, fs) => (Ending.ofProblem p, fs)
    | (.ok report, fs) => (⟨0, report, ""⟩, fs)

end Application

end PluginManager
