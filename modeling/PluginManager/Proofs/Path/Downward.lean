import PluginManager.Proofs.Path.Descent

/-!
# Paths that only go down

A relative path without `..` goes down by its names.  The pieces that stand for nothing only make
its text longer.

* `Path.way`, `Path.GoesDown`: what such a path comes down to.
* `pieces_intercalate`: names that are put together are taken apart again.
* `utf8ByteSize_le_of_sublist`: **fewer pieces make no longer text**.
-/

namespace PluginManager.Path

variable {p q r : Path} {names pieces : List String}

/-! ## Going down -/

/-- The names that the path goes down by, when none of its steps leads up. -/
def way (p : Path) : List String := (FileSystem.steps p).filter (· ≠ ".")

structure GoesDown (p : Path) : Prop where
  relative : p.isAbsolute = false
  no_parent : ".." ∉ FileSystem.steps p

instance : DecidablePred GoesDown := fun p =>
  decidable_of_iff (p.isAbsolute = false ∧ ".." ∉ FileSystem.steps p)
    ⟨fun ⟨h₁, h₂⟩ => ⟨h₁, h₂⟩, fun ⟨h₁, h₂⟩ => ⟨h₁, h₂⟩⟩

theorem way_sublist_pieces (p : Path) : p.way.Sublist p.pieces :=
  List.filter_sublist.trans List.filter_sublist

theorem GoesDown.isName (h : p.GoesDown) : ∀ n ∈ p.way, IsName n := by
  intro n hn
  obtain ⟨hstep, hcurrent⟩ := List.mem_filter.mp hn
  refine ⟨(FileSystem.mem_steps.mp hstep).2, by simpa using hcurrent, ?_,
    FileSystem.no_slash_of_mem_steps hstep⟩
  rintro rfl
  exact h.no_parent hstep

theorem text_ne_empty_of_way (h : p.way ≠ []) : p.text ≠ "" := by
  refine text_ne_empty_of_steps fun hsteps => h ?_
  rw [way, hsteps]
  rfl

theorem way_join (p : Path) (habs : q.isAbsolute = false) :
    (p.join q).way = p.way ++ q.way := by
  rw [way, FileSystem.steps_join p habs, List.filter_append]
  rfl

theorem GoesDown.join (hp : p.GoesDown) (hq : q.GoesDown) : (p.join q).GoesDown := by
  refine ⟨by rw [isAbsolute_join p hq.relative, hp.relative], ?_⟩
  rw [FileSystem.steps_join p hq.relative, List.mem_append, not_or]
  exact ⟨hp.no_parent, hq.no_parent⟩

/-! ## Putting names together -/

theorem pieces_intercalate (h : ∀ n ∈ names, IsName n) (hne : names ≠ []) :
    Path.pieces ⟨"/".intercalate names⟩ = names := by
  induction names with
  | nil => exact absurd rfl hne
  | cons name rest ih =>
    have hname := h name List.mem_cons_self
    cases rest with
    | nil => rw [String.intercalate_singleton, hname.pieces]
    | cons next rest =>
      rw [String.intercalate_cons_cons, pieces_slash, hname.pieces,
        ih (fun n hn => h n (List.mem_cons_of_mem name hn)) (by simp)]
      rfl

theorem descend_eq_join (p : Path) (h : ∀ n ∈ names, IsName n) (hne : names ≠ [])
    (habs : (Path.mk ("/".intercalate names)).isAbsolute = false) :
    p.descend names = p.join ⟨"/".intercalate names⟩ := by
  rw [descend_eq_seam p h hne, join_of_relative p habs]

/-! ## Lengths -/

/-- The bytes of the pieces with a slash behind each. -/
def spread : List String → Nat
  | [] => 0
  | piece :: rest => piece.utf8ByteSize + 1 + spread rest

theorem utf8ByteSize_intercalate (h : pieces ≠ []) :
    ("/".intercalate pieces).utf8ByteSize + 1 = spread pieces := by
  induction pieces with
  | nil => exact absurd rfl h
  | cons piece rest ih =>
    cases rest with
    | nil => simp [String.intercalate_singleton, spread]
    | cons next rest =>
      have hslash : "/".utf8ByteSize = 1 := by decide
      rw [String.intercalate_cons_cons, spread, ← ih (by simp), String.utf8ByteSize_append,
        String.utf8ByteSize_append, hslash]
      omega

theorem spread_le_of_sublist (h : names.Sublist pieces) : spread names ≤ spread pieces := by
  induction h with
  | slnil => exact Nat.le_refl _
  | cons a _ ih =>
    rw [spread]
    omega
  | cons_cons a _ ih =>
    rw [spread, spread]
    omega

/-- **Fewer pieces make no longer text.** -/
theorem utf8ByteSize_le_of_sublist (h : names.Sublist pieces) (hne : names ≠ []) :
    ("/".intercalate names).utf8ByteSize ≤ ("/".intercalate pieces).utf8ByteSize := by
  have hne' : pieces ≠ [] := by
    rintro rfl
    exact hne (List.sublist_nil.mp h)
  have hle := spread_le_of_sublist h
  rw [← utf8ByteSize_intercalate hne, ← utf8ByteSize_intercalate hne'] at hle
  omega

theorem mem_intercalate {c : Char} (h : c ∈ ("/".intercalate pieces).toList) :
    c = '/' ∨ ∃ piece ∈ pieces, c ∈ piece.toList := by
  induction pieces with
  | nil => exact absurd h (by simp)
  | cons piece rest ih =>
    cases rest with
    | nil =>
      rw [String.intercalate_singleton] at h
      exact .inr ⟨piece, List.mem_cons_self, h⟩
    | cons next rest =>
      rw [String.intercalate_cons_cons, String.toList_append, String.toList_append,
        List.mem_append, List.mem_append] at h
      rcases h with (h | h) | h
      · exact .inr ⟨piece, List.mem_cons_self, h⟩
      · exact .inl (by simpa using h)
      · exact (ih h).imp_right fun ⟨s, hs, hc⟩ => ⟨s, List.mem_cons_of_mem piece hs, hc⟩

theorem mem_intercalate_of_mem {piece : String} {c : Char} (h : piece ∈ pieces)
    (hc : c ∈ piece.toList) : c ∈ ("/".intercalate pieces).toList := by
  induction pieces with
  | nil => exact absurd h (by simp)
  | cons first rest ih =>
    cases rest with
    | nil =>
      rw [String.intercalate_singleton, ← List.mem_singleton.mp h]
      exact hc
    | cons next rest =>
      rw [String.intercalate_cons_cons, String.toList_append, String.toList_append,
        List.mem_append, List.mem_append]
      rcases List.mem_cons.mp h with rfl | h
      · exact .inl (.inl hc)
      · exact .inr (ih h)

theorem mem_text_of_mem_pieces {piece : String} {c : Char} (h : piece ∈ p.pieces)
    (hc : c ∈ piece.toList) : c ∈ p.text.toList := by
  rw [← p.intercalate_pieces]
  exact mem_intercalate_of_mem h hc

end PluginManager.Path
