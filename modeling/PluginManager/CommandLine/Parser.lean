import PluginManager.CommandLine.Basic
import PluginManager.CommandLine.Word

/-!
# Reading a command line

Words are read from left to right: first the options of the program itself, then the name of a
command, then what belongs to the command.  The value of an option is judged when the next option
or operand begins, or at the end, so that a word that belongs nowhere is reported before a bad
value in front of it.

* `Reader`: what has been given on one level, and the value that is still open.
* `Invocation.parse`: settings named after the command replace those named before it.
-/

namespace PluginManager

namespace CommandLine

/-! ## What has been given -/

/-- `targets` are in the order in which they were given. -/
structure Given where
  settings : Option Path := none
  plugin : Option Path := none
  schema : Option String := none
  targets : List (Role × Path) := []
  flags : List Flag := []
  deriving DecidableEq, Repr

namespace Given

def isEmpty (g : Given) : Bool := g = {}

def addFlag (g : Given) : Flag → Except UsageError Given
  | .help => .error .help
  | .version => .error .version
  | flag => if flag ∈ g.flags then .error .givenTwice else .ok { g with flags := flag :: g.flags }

def path (text : String) : Except UsageError Path :=
  if text = "" then .error .valueMissing else .ok ⟨text⟩

def addValue (g : Given) (text : String) : Field → Except UsageError Given
  | .settings =>
    if g.settings.isSome then .error .givenTwice
    else (path text).map fun p => { g with settings := some p }
  | .plugin =>
    if g.plugin.isSome then .error .givenTwice
    else (path text).map fun p => { g with plugin := some p }
  | .schema =>
    if g.schema.isSome then .error .givenTwice else .ok { g with schema := some text }
  | .target =>
    match TargetArgument.parse text with
    | .error fault => .error (.badTarget fault)
    | .ok target => .ok { g with targets := g.targets ++ [target] }

end Given

/-! ## Reading one level -/

/-- A field whose value is not judged yet, or not even read. -/
structure Pending where
  field : Field
  value : Option String
  deriving DecidableEq, Repr

structure Reader where
  given : Given := {}
  pending : Option Pending := none
  deriving DecidableEq, Repr

namespace Reader

/-- Judges what is still open. -/
def settle (r : Reader) : Except UsageError Given :=
  match r.pending with
  | none => .ok r.given
  | some ⟨_, none⟩ => .error .valueMissing
  | some ⟨field, some text⟩ => r.given.addValue text field

def isOpen (r : Reader) : Bool :=
  r.pending.any fun p => p.value.isNone

/-- The next word is the value of the open field. -/
def fill (r : Reader) (text : String) : Reader :=
  { r with pending := r.pending.map fun p => { p with value := some text } }

def flag (r : Reader) (flag : Flag) : Except UsageError Reader := do
  return { given := ← (← r.settle).addFlag flag }

def begin (r : Reader) (field : Field) (value : Option String) : Except UsageError Reader := do
  return { given := ← r.settle, pending := some ⟨field, value⟩ }

def long (r : Reader) (level : Level) (name : String) (value : Option String) :
    Except UsageError Reader :=
  match level.long? name, value with
  | none, _ => .error .unknownArgument
  | some (.inl flag), none => r.flag flag
  | some (.inl _), some _ => .error .valueNotAllowed
  | some (.inr field), none => r.begin field none
  | some (.inr field), some text => do
    return { given := ← (← r.settle).addValue text field }

def short (r : Reader) (level : Level) : List Char → Except UsageError Reader
  | [] => .ok r
  | c :: rest =>
    match level.short? c with
    | none => .error .unknownArgument
    | some flag => do (← r.flag flag).short level rest

def hasPlugin (r : Reader) : Bool :=
  r.given.plugin.isSome || r.pending.any fun p => p.field = .plugin

/-- A command takes one operand. -/
def operand (r : Reader) (text : String) : Except UsageError Reader :=
  if r.hasPlugin then .error .unknownArgument else r.begin .plugin (some text)

def operands (r : Reader) : List String → Except UsageError Reader
  | [] => .ok r
  | text :: rest => do (← r.operand text).operands rest

/-- Reads what follows the name of a command. -/
def command (name : CommandName) (r : Reader) : List String → Except UsageError Given
  | [] => r.settle
  | text :: rest =>
    match Word.ofText text with
    | .separator => do (← r.operands rest).settle
    | .long option value => do (← r.long (.command name) option value).command name rest
    | .short letters => do (← r.short (.command name) letters).command name rest
    | .plain text =>
      if r.isOpen then (r.fill text).command name rest
      else do (← r.operand text).command name rest

end Reader

/-! ## The whole line -/

def Given.command (g : Given) (plugin : Path) : CommandName → Command
  | .install => .install plugin (if .dev ∈ g.flags then .link else .copy) g.targets
  | .uninstall => .uninstall plugin g.targets
  | .validate => .validate plugin g.schema
  | .package => .package plugin (.noStrip ∉ g.flags) (.sorted ∈ g.flags)

def isCommand (text : String) : Bool :=
  text = "help" || (CommandName.ofText? text).isSome

/-- The answer to a request for help on a command. -/
def helpOn : List String → UsageError
  | [] => .help
  | [text] => if isCommand text then .help else .unknownCommand
  | _ => .unknownCommand

def withoutCommand (r : Reader) : Except UsageError Invocation := do
  let given ← r.settle
  throw (if given.isEmpty then .nothingGiven else .noCommand)

def runCommand (r : Reader) (name : CommandName) (rest : List String) :
    Except UsageError Invocation := do
  let inner ← ({} : Reader).command name rest
  let some plugin := inner.plugin | throw .noPlugin
  let outer ← r.settle
  return ⟨inner.settings.or outer.settings, inner.command plugin name⟩

def Reader.program (r : Reader) : List String → Except UsageError Invocation
  | [] => withoutCommand r
  | text :: rest =>
    match Word.ofText text with
    | .separator =>
      match rest with
      | [] => withoutCommand r
      | text :: _ => .error (if isCommand text then .unknownArgument else .unknownCommand)
    | .long option value => do (← r.long .program option value).program rest
    | .short letters => do (← r.short .program letters).program rest
    | .plain text =>
      if r.isOpen then (r.fill text).program rest
      else if text = "help" then .error (helpOn rest)
      else
        match CommandName.ofText? text with
        | none => .error .unknownCommand
        | some name => runCommand r name rest

end CommandLine

def Invocation.parse (words : List String) : Except UsageError Invocation :=
  CommandLine.Reader.program {} words

end PluginManager
