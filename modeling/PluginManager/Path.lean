import PluginManager.Text.Split

/-!
# Paths

A path is its text.  Slashes separate components; repeated slashes and `.` components stand for
nothing, except that a relative path may begin with `.`.  Nothing here looks at a file system, so
`..` stays a component of its own.

* `Path.join`: an absolute right side replaces the left one.
* `Path.components`, `Path.fileName?`, `Path.parent?`: the structure of the text.
* `Path.absoluteFrom?`: the same place seen from the root directory, unless the text is empty.
-/

namespace PluginManager

structure Path where
  text : String
  deriving DecidableEq, Repr, Inhabited

namespace Path

inductive Component where
  | root
  | current
  | parent
  | normal (name : String)
  deriving DecidableEq, Repr

instance : ToString Path := ⟨Path.text⟩

/-! ## Pieces -/

def isAbsolute (p : Path) : Bool :=
  p.text.toList.head? = some '/'

def endsWithSlash (p : Path) : Bool :=
  p.text.toList.getLast? = some '/'

def pieces (p : Path) : List String :=
  Text.splitText '/' p.text

/-- The component a piece stands for, away from the front of a path. -/
def component? (piece : String) : Option Component :=
  if piece = "" || piece = "." then none
  else if piece = ".." then some .parent
  else some (.normal piece)

def components (p : Path) : List Component :=
  let body := p.pieces.filterMap component?
  if p.isAbsolute then .root :: body
  else if p.pieces.head? = some "." then .current :: body
  else body

def Component.name? : Component → Option String
  | .normal name => some name
  | _ => none

def Component.text : Component → String
  | .root => "/"
  | .current => "."
  | .parent => ".."
  | .normal name => name

/-- The last component, when it is a name. -/
def fileName? (p : Path) : Option String :=
  p.components.getLast?.bind Component.name?

/-! ## Joining -/

def join (p q : Path) : Path :=
  if q.isAbsolute then q
  else if p.text = "" || p.endsWithSlash then ⟨p.text ++ q.text⟩
  else ⟨p.text ++ "/" ++ q.text⟩

def child (p : Path) (name : String) : Path :=
  p.join ⟨name⟩

def ofComponents (base : Path) (components : List Component) : Path :=
  components.foldl (fun p c => p.child c.text) base

/-! ## The enclosing path -/

def isSilent (piece : String) : Bool :=
  (component? piece).isNone

/-- Pieces without the last component and without what stands for nothing before it. -/
def dropComponent (pieces : List String) : List String :=
  (((pieces.reverse.dropWhile isSilent).drop 1).dropWhile isSilent).reverse

/-- The path without its last component; the root directory and the empty path have none. -/
def parent? (p : Path) : Option Path :=
  match p.components with
  | [] | [.root] => none
  | .root :: _ =>
    match dropComponent p.pieces with
    | [] => some ⟨"/"⟩
    | pieces => some ⟨"/".intercalate pieces⟩
  | [.current] => some ⟨""⟩
  | .current :: _ =>
    match dropComponent p.pieces.tail with
    | [] => some ⟨"."⟩
    | pieces => some ⟨"/".intercalate ("." :: pieces)⟩
  | _ => some ⟨"/".intercalate (dropComponent p.pieces)⟩

/-- The path and those that enclose it, up to the empty path or the root directory. -/
def ancestors (p : Path) : List Path :=
  go (p.components.length) p
where
  go : Nat → Path → List Path
    | 0, p => [p]
    | n + 1, p =>
      match p.parent? with
      | none => [p]
      | some q => p :: go n q

/-! ## Absolute paths -/

/-- The path seen from `directory`: silent pieces go, `..` and a trailing slash stay.  Two leading
slashes are kept, as they may mean something else than one. -/
def absoluteFrom? (p directory : Path) : Option Path :=
  if p.text = "" then none
  else
    let body :=
      match p.components with
      | .current :: rest => rest
      | components => components
    let whole :=
      match p.text.toList with
      | '/' :: '/' :: '/' :: _ => ofComponents ⟨""⟩ body
      | '/' :: '/' :: _ => ofComponents ⟨"//"⟩ body.tail
      | '/' :: _ => ofComponents ⟨""⟩ body
      | _ => ofComponents directory body
    some (if p.endsWithSlash then whole.child "" else whole)

end Path

end PluginManager
