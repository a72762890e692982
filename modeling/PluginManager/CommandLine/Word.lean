import PluginManager.Text.Split

/-!
# Words of a command line

* `Word.ofText`: what a word looks like.
* `Level.long?`, `Level.short?`: what an option means where it stands.
-/

namespace PluginManager.CommandLine

/-! ## Words -/

inductive Word where
  | separator
  | long (name : String) (value : Option String)
  | short (letters : List Char)
  | plain (text : String)
  deriving DecidableEq, Repr

def Word.ofText (text : String) : Word :=
  match text.toList with
  | ['-', '-'] => .separator
  | '-' :: '-' :: rest =>
    let name := String.ofList rest
    match Text.splitFirst '=' name with
    | some (name, value) => .long name (some value)
    | none => .long name none
  | '-' :: c :: rest => .short (c :: rest)
  | _ => .plain text

/-! ## Options -/

inductive CommandName where
  | install
  | uninstall
  | validate
  | package
  deriving DecidableEq, Repr

def CommandName.ofText? : String → Option CommandName
  | "install" => some install
  | "uninstall" => some uninstall
  | "validate" => some validate
  | "package" => some package
  | _ => none

/-- The level on which a word stands: before the name of the command, or after it. -/
inductive Level where
  | program
  | command (name : CommandName)
  deriving DecidableEq, Repr

inductive Flag where
  | help
  | version
  | dev
  | noStrip
  | sorted
  deriving DecidableEq, Repr

/-- What takes a value; the plugin is the only one that is no option. -/
inductive Field where
  | settings
  | target
  | schema
  | plugin
  deriving DecidableEq, Repr

/-- What a word that begins with a dash may name. -/
abbrev Parameter := Flag ⊕ Field

namespace Level

def long? : Level → String → Option Parameter
  | _, "help" => some (.inl .help)
  | _, "config" => some (.inr .settings)
  | program, "version" => some (.inl .version)
  | command .install, "dev" => some (.inl .dev)
  | command .install, "target" | command .uninstall, "target" => some (.inr .target)
  | command .validate, "schema" => some (.inr .schema)
  | command .package, "no-strip" => some (.inl .noStrip)
  | command .package, "sorted" => some (.inl .sorted)
  | _, _ => none

def short? : Level → Char → Option Flag
  | _, 'h' => some .help
  | program, 'V' => some .version
  | command .install, 'D' => some .dev
  | _, _ => none

end Level

end PluginManager.CommandLine
