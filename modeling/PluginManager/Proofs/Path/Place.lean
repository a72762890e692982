import PluginManager.Proofs.Path.Steps

/-!
# Places

The place of a path is what its text alone says: names from the root directory, each `..` taking the
name before it away.  No file system is asked, so links play no part.

* `Path.climb`: what a relative path does to the place it starts from, as a number of levels up and
  the names that come after.
* `place_join`: the place of a joined path.
* `isStrictlyBelow_join_iff`: **when a joined path stays below the first part**.
-/

namespace PluginManager.Path

/-! ## Places -/

def takeStep (l : List String) (piece : String) : List String :=
  if piece = "." then l else if piece = ".." then l.dropLast else l ++ [piece]

def place (p : Path) : List String := (FileSystem.steps p).foldl takeStep []

/-- The names of `l` begin those of `k`, and `k` has more. -/
def StrictlyBelow (l k : List String) : Prop := l <+: k ∧ k ≠ l

instance (l k : List String) : Decidable (StrictlyBelow l k) :=
  inferInstanceAs (Decidable (_ ∧ _))

def IsStrictlyBelow (root p : Path) : Prop := StrictlyBelow root.place p.place

instance (root p : Path) : Decidable (IsStrictlyBelow root p) :=
  inferInstanceAs (Decidable (StrictlyBelow _ _))

theorem strictlyBelow_append_left (l k m : List String) :
    StrictlyBelow (l ++ k) (l ++ m) ↔ StrictlyBelow k m := by
  rw [StrictlyBelow, StrictlyBelow, List.prefix_append_right_inj, ne_eq, List.append_cancel_left_eq]

/-! ## Climbing -/

/-- Levels to go up, then names to go down. -/
structure Climb where
  up : Nat
  down : List String
  deriving DecidableEq, Repr

namespace Climb

def start : Climb := ⟨0, []⟩

def takeStep (c : Climb) (piece : String) : Climb :=
  if piece = "." then c
  else if piece = ".." then
    if c.down = [] then ⟨c.up + 1, []⟩ else ⟨c.up, c.down.dropLast⟩
  else ⟨c.up, c.down ++ [piece]⟩

/-- Where the climb leads from a place. -/
def applyTo (c : Climb) (l : List String) : List String := l.take (l.length - c.up) ++ c.down

/-- The names that are left behind at a place. -/
def abandoned (c : Climb) (l : List String) : List String := l.drop (l.length - c.up)

theorem applyTo_start (l : List String) : start.applyTo l = l := by simp [start, applyTo]

theorem applyTo_takeStep (c : Climb) (piece : String) (l : List String) :
    (c.takeStep piece).applyTo l = Path.takeStep (c.applyTo l) piece := by
  rw [takeStep, Path.takeStep]
  split
  · rfl
  · split
    · split
      · rename_i hdown
        show l.take (l.length - (c.up + 1)) ++ [] = (c.applyTo l).dropLast
        rw [applyTo, hdown, List.append_nil, List.append_nil, List.dropLast_eq_take,
          List.length_take, List.take_take]
        congr 1
        omega
      · rename_i hdown
        rw [applyTo, applyTo, List.dropLast_append_of_ne_nil hdown]
    · rw [applyTo, applyTo, List.append_assoc]

theorem strictlyBelow_applyTo_iff (c : Climb) (l : List String) :
    StrictlyBelow l (c.applyTo l) ↔ StrictlyBelow (c.abandoned l) c.down := by
  have hl : l.take (l.length - c.up) ++ c.abandoned l = l := List.take_append_drop _ l
  have h := strictlyBelow_append_left (l.take (l.length - c.up)) (c.abandoned l) c.down
  rwa [hl] at h

end Climb

def climb (p : Path) : Climb := (FileSystem.steps p).foldl Climb.takeStep .start

theorem foldl_takeStep (pieces : List String) (c : Climb) (l : List String) :
    pieces.foldl takeStep (c.applyTo l) = (pieces.foldl Climb.takeStep c).applyTo l := by
  induction pieces generalizing c with
  | nil => rfl
  | cons piece rest ih =>
    rw [List.foldl_cons, List.foldl_cons, ← Climb.applyTo_takeStep]
    exact ih (c.takeStep piece)

theorem place_join (root : Path) {p : Path} (h : p.isAbsolute = false) :
    (root.join p).place = p.climb.applyTo root.place := by
  have hfold := foldl_takeStep (FileSystem.steps p) .start root.place
  rw [Climb.applyTo_start] at hfold
  rw [place, FileSystem.steps_join root h, List.foldl_append]
  exact hfold

theorem climb_of_steps {p : Path} {init : List String} {name : String}
    (h : FileSystem.steps p = init ++ [name]) (hname : IsName name) :
    p.climb = ⟨(init.foldl Climb.takeStep .start).up,
      (init.foldl Climb.takeStep .start).down ++ [name]⟩ := by
  rw [climb, h, List.foldl_append, List.foldl_cons, List.foldl_nil, Climb.takeStep,
    if_neg hname.ne_current, if_neg hname.ne_parent]

theorem climb_of_names {p : Path} {names : List String} (h : FileSystem.steps p = names)
    (hnames : ∀ name ∈ names, IsName name) : p.climb = ⟨0, names⟩ := by
  have hfold : ∀ (rest : List String), (∀ name ∈ rest, IsName name) → ∀ done : List String,
      rest.foldl Climb.takeStep ⟨0, done⟩ = ⟨0, done ++ rest⟩ := by
    intro rest
    induction rest with
    | nil => intro _ done; rw [List.append_nil]; rfl
    | cons name rest ih =>
      intro hrest done
      have hname := hrest name List.mem_cons_self
      rw [List.foldl_cons, Climb.takeStep, if_neg hname.ne_current, if_neg hname.ne_parent,
        ih (fun n hn => hrest n (List.mem_cons_of_mem name hn)), List.append_assoc]
      rfl
  rw [climb, h]
  exact hfold names hnames []

/-! ## Staying below -/

/-- The path never leaves the place it starts from. -/
def StaysInside (p : Path) : Prop := p.isAbsolute = false ∧ p.climb.up = 0

/-- The path leaves the place and leads into it again by its names. -/
def ComesBack (l : List String) (p : Path) : Prop :=
  if p.isAbsolute then StrictlyBelow l p.place
  else 0 < p.climb.up ∧ StrictlyBelow (p.climb.abandoned l) p.climb.down

instance (p : Path) : Decidable p.StaysInside := inferInstanceAs (Decidable (_ ∧ _))

instance (l : List String) (p : Path) : Decidable (ComesBack l p) :=
  inferInstanceAs (Decidable (ite _ _ _))

/-- **A joined path lies strictly below its first part** exactly when the second part never leaves
it, or leaves it and comes back by name. -/
theorem isStrictlyBelow_join_iff (root : Path) {p : Path}
    (hdown : p.isAbsolute = false → p.climb.down ≠ []) :
    IsStrictlyBelow root (root.join p) ↔ p.StaysInside ∨ ComesBack root.place p := by
  by_cases h : p.isAbsolute = true
  · rw [IsStrictlyBelow, join_of_isAbsolute root h, ComesBack, if_pos h, StaysInside, h]
    simp
  · rw [Bool.not_eq_true] at h
    rw [IsStrictlyBelow, place_join root h, Climb.strictlyBelow_applyTo_iff, ComesBack, h,
      if_neg (by decide), StaysInside, h]
    by_cases hup : p.climb.up = 0
    · have hall : p.climb.abandoned root.place = [] := by
        rw [Climb.abandoned, hup, Nat.sub_zero, List.drop_length]
      rw [hall, StrictlyBelow]
      simp [hup, hdown h]
    · have hpos : 0 < p.climb.up := Nat.pos_of_ne_zero hup
      simp [hup, hpos]

end PluginManager.Path
