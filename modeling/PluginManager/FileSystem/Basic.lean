import PluginManager.Path
import PluginManager.Text.Utf8

/-!
# File systems

Files, directories and symbolic links by location.  A location is the list of names that leads to
it from the root directory; it never goes through a link.  Entries are kept in the order in which
they were made, and a directory lists the newest name first.

What file systems have besides is left out, here and in all that rests on this.  There are no users:
modes are kept, but nobody is denied anything, and new entries are made under the mask 022.  A file
has one name and no other (no hard links).  Space does not run out, no device gives out, and of the
limits of a system there are those of `FileSystem.resolve` and no others; only `Cache.Faults` tells
of a device that gives out.  Names and the texts of links are UTF-8.

* `FileSystem.lookup`: what is at a location; the view in which operations are described.
* `lookup_insert`, `lookup_erase`: the two changes, location by location.
* `FileSystem.names`: the enumeration of a directory.
-/

namespace PluginManager

abbrev Location := List String

inductive Entry where
  | file (mode : Nat) (content : Bytes)
  | directory (mode : Nat)
  | link (target : Path)
  deriving DecidableEq, Repr

namespace Entry

def isDirectory : Entry → Bool
  | directory _ => true
  | _ => false

def isFile : Entry → Bool
  | file .. => true
  | _ => false

def isLink : Entry → Bool
  | link _ => true
  | _ => false

def setMode (mode : Nat) : Entry → Entry
  | file _ content => file mode content
  | directory _ => directory mode
  | link target => link target

end Entry

/-- `times` tells when files were last written, in seconds; `clock` is the present moment. -/
structure FileSystem where
  entries : List (Location × Entry)
  times : List (Location × Int)
  clock : Int
  workingDirectory : Location
  deriving Repr

namespace FileSystem

/-! ## Lookup -/

def rootMode : Nat := 0o755

/-- The root directory is always there. -/
def lookup (fs : FileSystem) : Location → Option Entry
  | [] => some (.directory rootMode)
  | name :: rest => fs.entries.lookup (name :: rest)

def time (fs : FileSystem) (l : Location) : Int :=
  (fs.times.lookup l).getD fs.clock

def isDirectoryAt (fs : FileSystem) (l : Location) : Bool :=
  (fs.lookup l).any Entry.isDirectory

@[simp] theorem lookup_nil (fs : FileSystem) : fs.lookup [] = some (.directory rootMode) := rfl

/-! ## Changes -/

def replaceEntry (l : Location) (e : Entry) : List (Location × Entry) → List (Location × Entry)
  | [] => [(l, e)]
  | (k, x) :: rest => if k = l then (l, e) :: rest else (k, x) :: replaceEntry l e rest

/-- A new entry comes last; a changed one keeps its place. -/
def insert (fs : FileSystem) (l : Location) (e : Entry) : FileSystem :=
  { fs with entries := replaceEntry l e fs.entries }

def touchAt (fs : FileSystem) (l : Location) (time : Int) : FileSystem :=
  { fs with times := (l, time) :: fs.times.filter (·.1 ≠ l) }

/-- Whether the location is `l` or lies below it. -/
def isWithin (l : Location) (k : Location) : Bool := l.isPrefixOf k

/-- Takes away a location and all below it. -/
def erase (fs : FileSystem) (l : Location) : FileSystem :=
  { fs with
    entries := fs.entries.filter fun (k, _) => !isWithin l k
    times := fs.times.filter fun (k, _) => !isWithin l k }

/-- Takes away all below a location, but not the location. -/
def eraseBelow (fs : FileSystem) (l : Location) : FileSystem :=
  { fs with
    entries := fs.entries.filter fun (k, _) => !isWithin l k || k = l
    times := fs.times.filter fun (k, _) => !isWithin l k || k = l }

theorem lookup_replaceEntry (l k : Location) (e : Entry) (es : List (Location × Entry)) :
    (replaceEntry l e es).lookup k = if k = l then some e else es.lookup k := by
  induction es with
  | nil =>
    by_cases h : k = l
    · simp [replaceEntry, h]
    · simp [replaceEntry, List.lookup_cons, h, beq_false_of_ne h]
  | cons x rest ih =>
    obtain ⟨m, y⟩ := x
    unfold replaceEntry
    by_cases hm : m = l
    · subst hm
      by_cases h : k = m
      · simp [h]
      · simp [List.lookup_cons, h, beq_false_of_ne h]
    · by_cases h : k = m
      · subst h
        simp [hm]
      · simp [hm, List.lookup_cons, beq_false_of_ne h, ih]

theorem lookup_insert (fs : FileSystem) {l : Location} (hl : l ≠ []) (e : Entry) (k : Location) :
    (fs.insert l e).lookup k = if k = l then some e else fs.lookup k := by
  cases k with
  | nil => simp [hl.symm]
  | cons name rest => exact lookup_replaceEntry l (name :: rest) e fs.entries

theorem lookup_filter_key {α : Type} (p : Location → Bool) (k : Location)
    (es : List (Location × α)) :
    (es.filter fun x => p x.1).lookup k = if p k then es.lookup k else none := by
  induction es with
  | nil => simp
  | cons x rest ih =>
    obtain ⟨m, y⟩ := x
    by_cases hm : p m = true
    · by_cases h : k = m
      · subst h
        simp [hm]
      · simp [hm, List.lookup_cons, beq_false_of_ne h, ih]
    · by_cases h : k = m
      · subst h
        simp [hm, ih]
      · simp [hm, List.lookup_cons, beq_false_of_ne h, ih]

theorem lookup_erase (fs : FileSystem) {l : Location} (hl : l ≠ []) (k : Location) :
    (fs.erase l).lookup k = if isWithin l k then none else fs.lookup k := by
  cases k with
  | nil =>
    cases l with
    | nil => exact absurd rfl hl
    | cons a as => simp [isWithin]
  | cons name rest =>
    have h := lookup_filter_key (fun k => !isWithin l k) (name :: rest) fs.entries
    show (fs.entries.filter fun x => !isWithin l x.1).lookup (name :: rest) = _
    rw [h]
    cases isWithin l (name :: rest) <;> rfl

/-! ## Enumeration -/

/-- The name of `k` inside the directory `l`, if it is a child of it. -/
def childName? (l k : Location) : Option String :=
  if k.dropLast = l then k.getLast? else none

def names (fs : FileSystem) (l : Location) : List String :=
  (fs.entries.filterMap fun (k, _) => childName? l k).reverse

/-- One more than the number of names in the longest location. -/
def height (fs : FileSystem) : Nat :=
  fs.entries.foldl (fun n (k, _) => max n k.length) 0 + 1

end FileSystem

end PluginManager
