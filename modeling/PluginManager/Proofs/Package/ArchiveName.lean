import PluginManager.Package
import PluginManager.Proofs.FileSystem.Written

/-!
# Names of archives

The name of an archive is checked to be one component, but a component need not be a name: it may be
`..` or the root directory, and slashes and dots may follow it.  None of these can be written.

* `pieces_of_isOneComponent`: how one component can be spelled.
* `isName_of_writable`: **an archive that can be written** has a name.
* `Path.fileName?_child`: by that name it is known when the archive is filled.
-/

namespace PluginManager

namespace Path

variable {p : Path} {name s t : String} {pieces rest : List String}

theorem endsWithSlash_of_silent (h : ∀ piece ∈ rest, piece = "") (hne : rest ≠ []) :
    endsWithSlash ⟨s ++ "/" ++ "/".intercalate rest⟩ = true := by
  induction rest generalizing s with
  | nil => exact absurd rfl hne
  | cons piece rest ih =>
    obtain rfl : piece = "" := h piece List.mem_cons_self
    cases rest with
    | nil =>
      rw [String.intercalate_singleton, String.append_empty, endsWithSlash_append (by decide)]
      decide
    | cons next rest =>
      rw [String.intercalate_cons_cons, String.empty_append, ← String.append_assoc]
      exact ih (fun x hx => h x (List.mem_cons_of_mem _ hx)) (by simp)

theorem isAbsolute_of_pieces (h : p.pieces = "" :: rest) (hne : p.text ≠ "") :
    p.isAbsolute = true := by
  have htext := p.intercalate_pieces
  rw [h] at htext
  cases rest with
  | nil => exact absurd (htext.symm.trans String.intercalate_singleton) hne
  | cons next rest =>
    rw [String.intercalate_cons_cons, String.empty_append] at htext
    rw [isAbsolute, ← htext]
    simp

/-- The last component of a path that ends with a name. -/
theorem fileName?_child (p : Path) (h : IsName name) : (p.child name).fileName? = some name := by
  obtain ⟨init, hinit⟩ := exists_pieces_child p h
  have hbody : (p.child name).pieces.filterMap component? =
      init.filterMap component? ++ [.normal name] := by
    rw [hinit, List.filterMap_append]
    simp [component?_of_isName h]
  rw [fileName?, components, hbody]
  split
  · rw [← List.cons_append, List.getLast?_concat]
    rfl
  · split
    · rw [← List.cons_append, List.getLast?_concat]
      rfl
    · rw [List.getLast?_concat]
      rfl

end Path

namespace Package

variable {fs : FileSystem} {root : Path} {name : String}

/-- Behind the one component of a relative path there is nothing but slashes and dots. -/
theorem pieces_of_isOneComponent (h : isOneComponent name = true)
    (habs : (Path.mk name).isAbsolute = false) {piece : String}
    (hmem : piece ∈ (Path.mk name).pieces)
    (hnormal : Path.component? piece = some (.normal piece)) :
    ∃ rest, (Path.mk name).pieces = piece :: rest ∧ ∀ x ∈ rest, x = "" ∨ x = "." := by
  have hlength : (Path.mk name).components.length = 1 := by simpa [isOneComponent] using h
  have hbody : Path.Component.normal piece ∈ (Path.mk name).pieces.filterMap Path.component? :=
    List.mem_filterMap.mpr ⟨piece, hmem, hnormal⟩
  have hpos := List.length_pos_of_mem hbody
  rw [Path.components, if_neg (by rw [habs]; decide)] at hlength
  obtain ⟨first, rest, hpieces⟩ := List.exists_cons_of_ne_nil (Path.pieces_ne_nil ⟨name⟩)
  have hne : name ≠ "" := by
    rintro rfl
    have hempty : (Path.mk "").pieces = [""] := by decide
    rw [hempty, List.mem_singleton] at hmem
    rw [hmem] at hnormal
    exact absurd hnormal (by decide)
  rw [hpieces] at hlength hbody hpos ⊢
  split at hlength
  · rw [List.length_cons] at hlength
    omega
  · rename_i hcurrent
    have hempty : first ≠ "" := by
      rintro rfl
      rw [Path.isAbsolute_of_pieces hpieces hne] at habs
      exact absurd habs (by decide)
    have hcurrent : first ≠ "." := by simpa using hcurrent
    obtain ⟨c, hc⟩ : ∃ c, Path.component? first = some c := by
      rw [Path.component?, if_neg (by simp [hempty, hcurrent])]
      split
      · exact ⟨_, rfl⟩
      · exact ⟨_, rfl⟩
    rw [List.filterMap_cons_some hc] at hlength hbody
    have hnil : rest.filterMap Path.component? = [] := by
      rw [List.length_cons] at hlength
      exact List.length_eq_zero_iff.mp (by omega)
    rw [hnil, List.mem_singleton] at hbody
    refine ⟨rest, ?_, fun x hx => ?_⟩
    · rw [← hbody, Path.component?] at hc
      split at hc
      · exact absurd hc (by simp)
      · split at hc
        · exact absurd hc (by simp)
        · obtain rfl : first = piece := by simpa using hc
          rfl
    · have hsilent := List.filterMap_eq_nil_iff.mp hnil x hx
      rw [Path.component?] at hsilent
      split at hsilent
      · rename_i hx
        simpa using hx
      · split at hsilent
        · exact absurd hsilent (by simp)
        · exact absurd hsilent (by simp)

theorem component?_of_step {p : Path} {piece : String} (h : piece ∈ FileSystem.steps p)
    (hcurrent : piece ≠ ".") (hparent : piece ≠ "..") :
    Path.component? piece = some (.normal piece) := by
  rw [Path.component?, if_neg (by simp [(FileSystem.mem_steps.mp h).2, hcurrent]), if_neg hparent]

theorem steps_ne_nil_of_isOneComponent (h : isOneComponent name = true)
    (habs : (Path.mk name).isAbsolute = false) : FileSystem.steps ⟨name⟩ ≠ [] := by
  intro hnil
  have hempty : ∀ piece ∈ (Path.mk name).pieces, piece = "" := by
    intro piece hpiece
    by_contra hne
    have hmem : piece ∈ FileSystem.steps ⟨name⟩ := FileSystem.mem_steps.mpr ⟨hpiece, hne⟩
    rw [hnil] at hmem
    exact absurd hmem (by simp)
  have hbody : (Path.mk name).pieces.filterMap Path.component? = [] := by
    refine List.filterMap_eq_nil_iff.mpr fun piece hpiece => ?_
    rw [hempty piece hpiece]
    rfl
  have hhead : (Path.mk name).pieces.head? ≠ some "." := by
    intro hhead
    exact absurd (hempty _ (List.mem_of_head? hhead)) (by decide)
  rw [isOneComponent, Path.components, if_neg (by rw [habs]; decide), if_neg hhead, hbody] at h
  exact absurd h (by decide)

theorem not_isAbsolute_of_isOneComponent (h : isOneComponent name = true) {piece : String}
    (hmem : piece ∈ FileSystem.steps ⟨name⟩) (hcurrent : piece ≠ ".") (hparent : piece ≠ "..") :
    (Path.mk name).isAbsolute = false := by
  by_contra habs
  rw [Bool.not_eq_false] at habs
  have hbody : Path.Component.normal piece ∈ (Path.mk name).pieces.filterMap Path.component? :=
    List.mem_filterMap.mpr
      ⟨piece, (FileSystem.mem_steps.mp hmem).1, component?_of_step hmem hcurrent hparent⟩
  have hpos := List.length_pos_of_mem hbody
  rw [isOneComponent, Path.components, if_pos habs, decide_eq_true_eq, List.length_cons] at h
  omega

/-- **An archive that can be written** has a name. -/
theorem isName_of_writable {x : Location × Option Nat} (h : isOneComponent name = true)
    (hw : fs.writable (root.child name) = .ok x) : IsName name := by
  obtain ⟨init, piece, hsteps, hcurrent, hparent⟩ := FileSystem.exists_steps_of_writable hw
  have habs : (Path.mk name).isAbsolute = false := by
    by_contra habs
    rw [Bool.not_eq_false] at habs
    rw [Path.child, Path.join_of_isAbsolute root habs] at hsteps
    rw [not_isAbsolute_of_isOneComponent h (by rw [hsteps]; simp) hcurrent hparent] at habs
    exact absurd habs (by decide)
  obtain ⟨init', piece', hname⟩ :=
    List.eq_nil_or_concat (FileSystem.steps ⟨name⟩) |>.resolve_left
      (steps_ne_nil_of_isOneComponent h habs)
  rw [List.concat_eq_append] at hname
  obtain rfl : piece' = piece := by
    rw [Path.child, FileSystem.steps_join root habs, hname, ← List.append_assoc] at hsteps
    simpa using (List.append_inj' hsteps rfl).2
  have hmem : piece' ∈ FileSystem.steps ⟨name⟩ := by
    rw [hname]
    simp
  obtain ⟨rest, hpieces, hrest⟩ := pieces_of_isOneComponent h habs (FileSystem.mem_steps.mp hmem).1
    (component?_of_step hmem hcurrent hparent)
  have hsilent : ∀ x ∈ rest, x = "" := by
    -- A dot behind the component would be the last step.
    by_contra hdots
    simp only [not_forall] at hdots
    obtain ⟨x, hx, hne⟩ := hdots
    rw [FileSystem.steps, hpieces,
      List.filter_cons_of_pos (by simpa using (FileSystem.mem_steps.mp hmem).2)] at hname
    have hlast : (rest.filter (· ≠ "")).getLast? = some piece' := by
      have hnonempty : rest.filter (· ≠ "") ≠ [] :=
        List.ne_nil_of_mem (List.mem_filter.mpr ⟨hx, by simpa using hne⟩)
      have := congrArg List.getLast? hname
      rwa [List.getLast?_concat, List.getLast?_cons_of_ne_nil hnonempty] at this
    obtain ⟨hin, hne'⟩ := List.mem_filter.mp (List.mem_of_getLast? hlast)
    exact (hrest piece' hin).elim (by simpa using hne') hcurrent
  cases rest with
  | nil =>
    have htext := (Path.mk name).intercalate_pieces
    rw [hpieces, String.intercalate_singleton] at htext
    obtain rfl : piece' = name := htext
    exact ⟨(FileSystem.mem_steps.mp hmem).2, hcurrent, hparent,
      Text.not_mem_of_mem_splitText (FileSystem.mem_steps.mp hmem).1⟩
  | cons next rest =>
    have htext : "/".intercalate (Path.mk name).pieces = name := (Path.mk name).intercalate_pieces
    rw [hpieces, String.intercalate_cons_cons] at htext
    have hends : (Path.mk name).endsWithSlash = true := by
      rw [← htext]
      exact Path.endsWithSlash_of_silent hsilent (by simp)
    have hne : name ≠ "" := by
      rintro rfl
      exact absurd hends (by decide)
    have hslash := FileSystem.not_endsWithSlash_of_writable hw
    rw [Path.child, Path.endsWithSlash_join root hne, hends] at hslash
    exact absurd hslash (by decide)

end Package

end PluginManager
