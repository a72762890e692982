import PluginManager.Proofs.Path.Descent

/-!
# The paths that enclose a path

Taking off components leaves the steps before them, whatever slashes and dots stand in between.

* `Encloses`: a path with the first steps of another, from the same start.
* `encloses_of_parent?`: the path without its last component encloses it.
* `encloses_of_mem_ancestors`: **so do all that enclose it**.
-/

namespace PluginManager.Path

open FileSystem (steps)

variable {p q r : Path} {pieces init : List String}

/-- The steps of `q` are the first of those of `p`.  The empty path is the start of any path. -/
structure Encloses (q p : Path) : Prop where
  steps : steps q <+: steps p
  start : q.text ≠ "" → p.text ≠ "" ∧ q.isAbsolute = p.isAbsolute

theorem Encloses.refl (p : Path) : Encloses p p := ⟨List.prefix_refl _, fun h => ⟨h, rfl⟩⟩

theorem Encloses.trans (h : Encloses q r) (h' : Encloses r p) : Encloses q p := by
  refine ⟨h.steps.trans h'.steps, fun hq => ?_⟩
  obtain ⟨hr, habs⟩ := h.start hq
  exact ⟨(h'.start hr).1, habs.trans (h'.start hr).2⟩

/-! ## The enclosing path -/

theorem dropComponent_prefix (pieces : List String) : dropComponent pieces <+: pieces := by
  rw [dropComponent, ← List.reverse_suffix, List.reverse_reverse]
  exact (List.dropWhile_suffix _).trans
    ((List.drop_suffix 1 _).trans (List.dropWhile_suffix _))

/-- The first pieces of a path are a path that encloses it. -/
theorem encloses_of_prefix (h : init <+: p.pieces) : Encloses ⟨"/".intercalate init⟩ p := by
  obtain ⟨rest, hrest⟩ := h
  have htext := p.intercalate_pieces
  by_cases hr : rest = []
  · rw [hr, List.append_nil] at hrest
    rw [hrest, htext]
    exact .refl p
  · by_cases hi : init = []
    · rw [hi]
      exact ⟨by simp [FileSystem.steps_empty], fun hne => absurd rfl hne⟩
    · rw [← hrest, String.intercalate_append_of_ne_nil hi hr] at htext
      obtain rfl : (⟨"/".intercalate init ++ "/" ++ "/".intercalate rest⟩ : Path) = p := by
        rw [htext]
      refine ⟨?_, fun hne => ⟨by simp, ?_⟩⟩
      · rw [FileSystem.steps_append_slash]
        exact List.prefix_append _ _
      · rw [String.append_assoc, isAbsolute_append hne]

theorem isAbsolute_of_components {rest : List Component} (h : p.components = .root :: rest) :
    p.isAbsolute = true := by
  cases habs : p.isAbsolute with
  | true => rfl
  | false =>
    simp only [components, habs, Bool.false_eq_true, if_false] at h
    split at h
    · exact absurd h (by simp)
    · have hmem : Component.root ∈ p.pieces.filterMap component? := by
        rw [h]
        exact List.mem_cons_self
      obtain ⟨piece, -, hpiece⟩ := List.mem_filterMap.mp hmem
      rw [component?] at hpiece
      split at hpiece
      · exact absurd hpiece (by simp)
      · split at hpiece <;> exact absurd hpiece (by simp)

theorem encloses_of_parent? (h : p.parent? = some q) : Encloses q p := by
  have hdrop := dropComponent_prefix p.pieces
  rw [parent?] at h
  split at h
  · exact absurd h (by simp)
  · exact absurd h (by simp)
  · rename_i hroot
    split at h
    · -- Only the root directory is left.
      obtain rfl := Option.some.inj h
      have habs := isAbsolute_of_components hroot
      refine ⟨?_, fun _ => ⟨?_, by rw [habs]; rfl⟩⟩
      · have hsteps : FileSystem.steps ⟨"/"⟩ = [] := by decide
        rw [hsteps]
        exact List.nil_prefix
      · rintro htext
        rw [isAbsolute, htext] at habs
        exact absurd habs (by decide)
    · obtain rfl := Option.some.inj h
      exact encloses_of_prefix hdrop
  · obtain rfl := Option.some.inj h
    exact ⟨by simp [FileSystem.steps_empty], fun hne => absurd rfl hne⟩
  · rename_i hcurrent
    obtain ⟨rest, hrest⟩ : ∃ rest, p.pieces = "." :: rest := by
      have hhead := head?_pieces_of_components hcurrent
      cases hp : p.pieces with
      | nil => rw [hp] at hhead; exact absurd hhead (by simp)
      | cons piece rest =>
        rw [hp] at hhead
        obtain rfl : piece = "." := by simpa using hhead
        exact ⟨rest, rfl⟩
    have htail : "." :: dropComponent p.pieces.tail <+: p.pieces := by
      rw [hrest, List.tail_cons]
      exact List.cons_prefix_cons.mpr ⟨rfl, dropComponent_prefix rest⟩
    split at h
    · obtain rfl := Option.some.inj h
      have hfirst : ["."] <+: p.pieces := by
        rw [hrest]
        exact List.prefix_append ["."] rest
      simpa using encloses_of_prefix hfirst
    · obtain rfl := Option.some.inj h
      exact encloses_of_prefix htail
  · obtain rfl := Option.some.inj h
    exact encloses_of_prefix hdrop

/-- **All paths that enclose a path** have its first steps. -/
theorem encloses_of_mem_ancestors (h : q ∈ p.ancestors) : Encloses q p := by
  rw [ancestors] at h
  generalize p.components.length = n at h
  induction n generalizing p with
  | zero =>
    obtain rfl := List.mem_singleton.mp h
    exact .refl q
  | succ n ih =>
    rw [ancestors.go] at h
    cases hparent : p.parent? with
    | none =>
      rw [hparent] at h
      obtain rfl := List.mem_singleton.mp h
      exact .refl q
    | some r =>
      rw [hparent] at h
      rcases List.mem_cons.mp h with rfl | h
      · exact .refl q
      · exact (ih h).trans (encloses_of_parent? hparent)

end PluginManager.Path
