import PluginManager.Proofs.FileSystem.Copy
import PluginManager.Proofs.FileSystem.Reaches

/-!
# Files that are written

A path can be written when it ends with a step down to a file, or to nothing, in a directory.

* `writable_eq_ok`, `exists_of_writable`: **what can be written**, and where it stands.
* `existing_of_writable`: the mode that is kept.
* `not_endsWithSlash_of_writable`, `exists_steps_of_writable`: what its path looks like.
* `guides_setContent`, `guides_of_setContent`: writing a file leads no path elsewhere.
-/

namespace PluginManager.FileSystem

variable {fs : FileSystem} {l k : Location} {p : Path} {name piece : String}
  {pieces init : List String} {links : Nat} {last slash : Bool} {kind : LastPiece} {spot : Spot}
  {existing : Option Nat}

/-! ## The end of a path -/

theorem Reaches.last_ne_name (hpiece : piece = "." ∨ piece = "..")
    (h : Reaches fs last links slash l kind (init ++ [piece]) spot) : spot.last ≠ .name := by
  have hlookedUp : ¬ IsLookedUp piece := fun hp => hpiece.elim hp.ne_current hp.ne_parent
  generalize hpieces : init ++ [piece] = pieces at h
  induction h generalizing init with
  | done => exact absurd hpieces (by simp)
  | @current _ _ _ _ rest _ h ih =>
    cases init with
    | nil =>
      obtain rfl : [] = rest := by simpa using congrArg List.tail hpieces
      cases h with
      | done => simp
    | cons a init => exact ih (List.cons_eq_cons.mp hpieces).2
  | @parent _ _ _ _ rest _ h ih =>
    cases init with
    | nil =>
      obtain rfl : [] = rest := by simpa using congrArg List.tail hpieces
      cases h with
      | done => simp
    | cons a init => exact ih (List.cons_eq_cons.mp hpieces).2
  | directory hp _ _ ih =>
    cases init with
    | nil => exact absurd ((List.cons_eq_cons.mp hpieces).1 ▸ hp) hlookedUp
    | cons a init => exact ih (List.cons_eq_cons.mp hpieces).2
  | stop hp _ =>
    cases init with
    | nil => exact absurd ((List.cons_eq_cons.mp hpieces).1 ▸ hp) hlookedUp
    | cons a init => exact absurd (List.cons_eq_cons.mp hpieces).2 (by simp)
  | @link _ _ _ _ _ rest _ target hp _ _ _ ih =>
    cases init with
    | nil => exact absurd ((List.cons_eq_cons.mp hpieces).1 ▸ hp) hlookedUp
    | cons a init =>
      obtain ⟨-, rfl⟩ := List.cons_eq_cons.mp hpieces
      exact ih (List.append_assoc (steps target) init [piece])

/-- A slash at the end is not forgotten. -/
theorem Reaches.slash_eq (h : Reaches fs last links slash l kind pieces spot)
    (hslash : slash = true) : spot.slash = true := by
  induction h with
  | done => exact hslash
  | stop _ _ => exact hslash
  | current _ ih | parent _ ih | directory _ _ _ ih => exact ih hslash
  | link _ _ _ _ ih => exact ih (by rw [hslash, Bool.true_or])

theorem forall_mem_steps (p : Path) : ∀ s ∈ steps p, s ≠ "" ∧ '/' ∉ s.toList :=
  fun _ hs => ⟨(mem_steps.mp hs).2, no_slash_of_mem_steps hs⟩

/-! ## What can be written -/

theorem writable_eq_ok {x : Location × Option Nat} (h : writable fs p = .ok x) :
    ∃ spot, resolve fs (!p.endsWithSlash) p = .ok spot ∧ spot.slash = false ∧
      spot.last = .name ∧ spot.location = x.1 ∧ ∀ e, spot.entry = some e → e.isFile = true := by
  rw [writable] at h
  cases hres : resolve fs (!p.endsWithSlash) p with
  | error e => simp [hres] at h
  | ok spot =>
    simp only [hres] at h
    split at h
    · exact absurd h (by simp)
    · rename_i hkind
      rw [Bool.or_eq_true, decide_eq_true_eq, not_or, Bool.not_eq_true, not_not] at hkind
      refine ⟨spot, rfl, hkind.1, hkind.2, ?_⟩
      cases hentry : spot.entry with
      | none =>
        simp only [hentry, Except.ok.injEq] at h
        exact ⟨by rw [← h], fun e he => absurd he (by simp)⟩
      | some e =>
        cases e with
        | file mode content =>
          simp only [hentry, Except.ok.injEq] at h
          refine ⟨by rw [← h], fun e he => ?_⟩
          obtain rfl := Option.some.inj he
          rfl
        | directory mode => simp [hentry] at h
        | link target => simp [hentry] at h

/-- Of what is written over, the mode is kept. -/
theorem existing_of_writable (h : writable fs p = .ok (k, existing)) :
    (fs.lookup k = none ∧ existing = none) ∨
      ∃ mode content, fs.lookup k = some (.file mode content) ∧ existing = some mode := by
  rw [writable] at h
  cases hres : resolve fs (!p.endsWithSlash) p with
  | error e => simp [hres] at h
  | ok spot =>
    have hentry := (reaches_of_resolve hres).entry_eq
    simp only [hres] at h
    split at h
    · exact absurd h (by simp)
    · cases he : spot.entry with
      | none =>
        obtain ⟨rfl, rfl⟩ : spot.location = k ∧ none = existing := by simpa [he] using h
        exact .inl ⟨by rw [← hentry, he], rfl⟩
      | some e =>
        cases e with
        | file mode content =>
          obtain ⟨rfl, rfl⟩ : spot.location = k ∧ some mode = existing := by simpa [he] using h
          exact .inr ⟨mode, content, by rw [← hentry, he], rfl⟩
        | directory mode => simp [he] at h
        | link target => simp [he] at h

theorem not_endsWithSlash_of_writable {x : Location × Option Nat} (h : writable fs p = .ok x) :
    p.endsWithSlash = false := by
  obtain ⟨spot, hres, hslash, -⟩ := writable_eq_ok h
  by_contra hends
  rw [Bool.not_eq_false] at hends
  rw [(reaches_of_resolve hres).slash_eq hends] at hslash
  exact absurd hslash (by decide)

/-- What can be written is the last step of its path, and that is a step down. -/
theorem exists_steps_of_writable {x : Location × Option Nat} (h : writable fs p = .ok x) :
    ∃ init piece, steps p = init ++ [piece] ∧ piece ≠ "." ∧ piece ≠ ".." := by
  obtain ⟨spot, hres, -, hkind, -⟩ := writable_eq_ok h
  have hreaches := reaches_of_resolve hres
  rcases List.eq_nil_or_concat (steps p) with hnil | ⟨init, piece, hsteps⟩
  · rw [hnil] at hreaches
    cases hreaches with
    | done => exact absurd hkind (by simp)
  · rw [List.concat_eq_append] at hsteps
    rw [hsteps] at hreaches
    exact ⟨init, piece, hsteps, fun hp => hreaches.last_ne_name (.inl hp) hkind,
      fun hp => hreaches.last_ne_name (.inr hp) hkind⟩

/-- The location is that of a name in a directory. -/
def IsPlace (fs : FileSystem) (l : Location) : Prop :=
  ∃ init name, l = init ++ [name] ∧ IsName name ∧ fs.isDirectoryAt init = true

theorem Reaches.isPlace (hwf : fs.WellFormed)
    (hpieces : ∀ s ∈ pieces, s ≠ "" ∧ '/' ∉ s.toList)
    (h : Reaches fs last links slash l kind pieces spot) (hl : fs.isDirectoryAt l = true)
    (hkind : kind = .name → IsPlace fs l) (hlast : spot.last = .name) :
    IsPlace fs spot.location := by
  have hstep : ∀ {l : Location} {piece : String}, fs.isDirectoryAt l = true → IsLookedUp piece →
      piece ≠ "" ∧ '/' ∉ piece.toList → IsPlace fs (l ++ [piece]) := fun {l piece} hl hp hs =>
    ⟨l, piece, rfl, ⟨hs.1, hp.ne_current, hp.ne_parent, hs.2⟩, hl⟩
  induction h with
  | done => exact hkind hlast
  | current _ ih =>
    exact ih (fun s hs => hpieces s (List.mem_cons_of_mem _ hs)) hl (by simp) hlast
  | parent _ ih =>
    exact ih (fun s hs => hpieces s (List.mem_cons_of_mem _ hs)) (hwf.isDirectoryAt_dropLast hl)
      (by simp) hlast
  | directory hp hd _ ih =>
    exact ih (fun s hs => hpieces s (List.mem_cons_of_mem _ hs)) hd
      (fun _ => hstep hl hp (hpieces _ List.mem_cons_self)) hlast
  | stop hp _ => exact hstep hl hp (hpieces _ List.mem_cons_self)
  | @link _ _ _ _ _ rest _ target _ _ _ _ ih =>
    refine ih (fun s hs => ?_) (isDirectoryAt_linkStart hl target) (by simp) hlast
    rcases List.mem_append.mp hs with hs | hs
    · exact forall_mem_steps target s hs
    · exact hpieces s (List.mem_cons_of_mem _ hs)

/-- **What can be written** is a file or nothing, in a directory. -/
theorem exists_of_writable (hwf : fs.WellFormed) (h : writable fs p = .ok (k, existing)) :
    IsPlace fs k ∧ ∀ e, fs.lookup k = some e → e.isFile = true := by
  obtain ⟨spot, hres, -, hkind, rfl, hentry⟩ := writable_eq_ok h
  have hreaches := reaches_of_resolve hres
  refine ⟨hreaches.isPlace hwf (forall_mem_steps p) (isDirectoryAt_start_of_resolve hres) (by simp)
    hkind, fun e he => hentry e ?_⟩
  rw [hreaches.entry_eq, he]

/-! ## Writing -/

variable {mode : Nat} {content : Bytes}

theorem lookup_setContent (fs : FileSystem) (hl : l ≠ []) (mode : Nat) (content : Bytes)
    (k : Location) :
    (fs.setContent l mode content).lookup k =
      if k = l then some (.file mode content) else fs.lookup k := by
  rw [setContent, lookup_touchAt, lookup_insert fs hl]

theorem IsPlace.ne_nil (h : IsPlace fs l) : l ≠ [] := by
  obtain ⟨init, name, rfl, -, -⟩ := h
  exact append_singleton_ne_nil

/-- Where at most a file is there is no directory. -/
theorem isDirectoryAt_eq_false_of_file (hfree : ∀ e, fs.lookup l = some e → e.isFile = true) :
    fs.isDirectoryAt l = false := by
  by_contra hd
  rw [Bool.not_eq_false] at hd
  obtain ⟨mode, hmode⟩ := isDirectoryAt_iff.mp hd
  exact absurd (hfree _ hmode) (by simp [Entry.isFile])

variable (hl : IsPlace fs l) (hfree : ∀ e, fs.lookup l = some e → e.isFile = true)
include hl hfree

theorem guides_setContent (mode : Nat) (content : Bytes) :
    Guides fs (fs.setContent l mode content) := by
  have hkeep : ∀ k e, fs.lookup k = some e → e.isFile = false →
      (fs.setContent l mode content).lookup k = some e := by
    intro k e he hfile
    rw [lookup_setContent fs hl.ne_nil, if_neg, he]
    rintro rfl
    rw [hfree e he] at hfile
    exact absurd hfile (by decide)
  refine ⟨fun k hk => ?_, fun k target hk => hkeep k _ hk rfl, rfl⟩
  obtain ⟨mode', hmode⟩ := isDirectoryAt_iff.mp hk
  exact isDirectoryAt_of_lookup (hkeep k _ hmode rfl)

omit hfree in
theorem guides_of_setContent (mode : Nat) (content : Bytes) :
    Guides (fs.setContent l mode content) fs := by
  have hkeep : ∀ k e, (fs.setContent l mode content).lookup k = some e → e.isFile = false →
      fs.lookup k = some e := by
    intro k e he hfile
    rw [lookup_setContent fs hl.ne_nil] at he
    split at he
    · obtain rfl := Option.some.inj he
      exact absurd hfile (by simp [Entry.isFile])
    · exact he
  refine ⟨fun k hk => ?_, fun k target hk => hkeep k _ hk rfl, rfl⟩
  obtain ⟨mode', hmode⟩ := isDirectoryAt_iff.mp hk
  exact isDirectoryAt_of_lookup (hkeep k _ hmode rfl)

theorem wellFormed_setContent (hwf : fs.WellFormed) (mode : Nat) (content : Bytes) :
    (fs.setContent l mode content).WellFormed := by
  obtain ⟨init, name, rfl, hname, hd⟩ := hl
  have hempty : EmptyBelow fs (init ++ [name]) := fun r hr =>
    hwf.lookup_append_eq_none hr (isDirectoryAt_eq_false_of_file hfree)
  exact (placed_setContent append_singleton_ne_nil hempty mode content).wellFormed hwf
    (Tree.wellFormed_leaf _) fun _ => ⟨hname, hd⟩

end PluginManager.FileSystem
