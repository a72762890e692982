import PluginManager.Failure
import PluginManager.Install
import PluginManager.Text.Blank

/-!
# Commands

What a command line asks for, and why it may not be understood.

* `TargetArgument.parse`: a role, an equals sign and a directory; the first sign counts, and blanks
  around either part do not.
-/

namespace PluginManager

inductive Command where
  | install (plugin : Path) (mode : InstallMode) (targets : List (Role × Path))
  | uninstall (plugin : Path) (targets : List (Role × Path))
  | validate (plugin : Path) (schema : Option String)
  | package (plugin : Path) (strip sorted : Bool)
  deriving DecidableEq, Repr

structure Invocation where
  settings : Option Path
  command : Command
  deriving DecidableEq, Repr

/-! ## Targets -/

inductive TargetFault where
  | noEquals (text : String)
  | unknownRole (label : String)
  | noDirectory (role : Role)
  deriving DecidableEq, Repr

def TargetFault.message : TargetFault → String
  | noEquals text => "expected TYPE=DIR, got " ++ Text.quoted text
  | unknownRole label => unknownRoleMessage label
  | noDirectory role => "missing directory for " ++ role.label

def TargetArgument.parse (text : String) : Except TargetFault (Role × Path) :=
  match Text.splitFirst '=' text with
  | none => .error (.noEquals text)
  | some (before, after) =>
    match Role.ofLabel? (Text.trim before) with
    | none => .error (.unknownRole (Text.trim before))
    | some role =>
      if Text.isBlankText after then .error (.noDirectory role)
      else .ok (role, ⟨Text.trim after⟩)

/-! ## Errors -/

/-- Why no command is run.  The first three answer a question or the lack of one. -/
inductive UsageError where
  | help
  | version
  | nothingGiven
  | noCommand
  | unknownCommand
  | noPlugin
  | unknownArgument
  | givenTwice
  | valueNotAllowed
  | valueMissing
  | badTarget (fault : TargetFault)
  deriving DecidableEq, Repr

namespace UsageError

/-- Asking for help is no mistake. -/
def exitCode : UsageError → Nat
  | help | version => 0
  | _ => 2

def detail? : UsageError → Option String
  | badTarget fault => some fault.message
  | _ => none

end UsageError

end PluginManager
