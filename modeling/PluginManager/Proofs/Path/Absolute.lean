import PluginManager.Proofs.Path.Downward

/-!
# Paths made absolute

A path that is made absolute goes the same way, from the root directory or from the directory that
it is seen from.  Of its text the pieces that stand for nothing are gone, and a slash at the end
stays.

* `hasNul_eq_any`: a byte that is not allowed stands in a piece.
* `IsBase`: where a path that is made absolute begins.
* `exists_base_of_absoluteFrom?`: **what the path comes down to**.
* `steps_absoluteFrom?`, `isAbsolute_of_absoluteFrom?`, `endsWithSlash_absoluteFrom?`,
  `hasNul_absoluteFrom?`: what that says of its text.
-/

namespace PluginManager

open FileSystem (steps mem_steps hasNul)

/-! ## Pieces -/

variable {p q d base : Path} {s : String} {names : List String}

theorem isPiece_of_mem_steps (h : s ∈ steps p) : IsPiece s :=
  ⟨(mem_steps.mp h).2, FileSystem.no_slash_of_mem_steps h⟩

theorem isPiece_of_mem_way (p : Path) : ∀ s ∈ p.way, IsPiece s :=
  fun _ hs => isPiece_of_mem_steps (List.mem_filter.mp hs).1

theorem FileSystem.hasNul_join (p : Path) (hq : q.isAbsolute = false) :
    hasNul (p.join q) = (hasNul p || hasNul q) := by
  have hseam : p.seam.toList.any (· = '\x00') = false := by
    rw [Path.seam]
    split <;> rfl
  rw [Path.join_of_relative p hq]
  simp only [hasNul, String.toList_append, List.any_append, hseam, Bool.or_false]

/-- Only pieces can have a byte that is not allowed. -/
theorem FileSystem.hasNul_eq_any (p : Path) :
    hasNul p = p.way.any fun s => hasNul ⟨s⟩ := by
  rw [Bool.eq_iff_iff, hasNul, List.any_eq_true, List.any_eq_true]
  constructor
  · rintro ⟨c, hc, hnul⟩
    obtain rfl : c = '\x00' := by simpa using hnul
    rw [← p.intercalate_pieces] at hc
    obtain ⟨piece, hpiece, hmem⟩ := (Path.mem_intercalate hc).resolve_left (by decide)
    refine ⟨piece, ?_, List.any_eq_true.mpr ⟨_, hmem, hnul⟩⟩
    refine List.mem_filter.mpr ⟨mem_steps.mpr ⟨hpiece, ?_⟩, ?_⟩
    · rintro rfl
      exact absurd hmem (by simp)
    · rw [decide_eq_true_eq]
      rintro rfl
      exact absurd hmem (by decide)
  · rintro ⟨piece, hpiece, hnul⟩
    obtain ⟨c, hc, hc'⟩ := List.any_eq_true.mp hnul
    exact ⟨c, Path.mem_text_of_mem_pieces ((Path.way_sublist_pieces p).subset hpiece) hc, hc'⟩

namespace Path

/-! ## Going down by pieces -/

theorem hasNul_descend_of_pieces (p : Path) (h : ∀ s ∈ names, IsPiece s) :
    hasNul (p.descend names) = (hasNul p || names.any fun s => hasNul ⟨s⟩) := by
  induction names generalizing p with
  | nil => simp [descend]
  | cons s rest ih =>
    have hrest := ih (p.child s) fun n hn => h n (List.mem_cons_of_mem s hn)
    rw [child, FileSystem.hasNul_join p (h s List.mem_cons_self).not_isAbsolute,
      Bool.or_assoc] at hrest
    exact hrest

theorem not_endsWithSlash_descend (p : Path) (h : ∀ s ∈ names, IsPiece s) (hne : names ≠ []) :
    (p.descend names).endsWithSlash = false := by
  obtain ⟨init, s, rfl⟩ := List.eq_nil_or_concat names |>.resolve_left hne
  rw [List.concat_eq_append] at h ⊢
  have hs := h s (by simp)
  rw [descend_concat, child, endsWithSlash_join _ hs.ne_empty, hs.not_endsWithSlash]

/-! ## Components -/

theorem map_text_filterMap (pieces : List String) :
    (pieces.filterMap component?).map Component.text =
      (pieces.filter (· ≠ "")).filter (· ≠ ".") := by
  induction pieces with
  | nil => rfl
  | cons piece rest ih =>
    by_cases hempty : piece = ""
    · rw [hempty, List.filterMap_cons_none (by rfl), List.filter_cons_of_neg (by simp), ih]
    · rw [List.filter_cons_of_pos (by simpa using hempty)]
      by_cases hcurrent : piece = "."
      · rw [hcurrent, List.filterMap_cons_none (by rfl), List.filter_cons_of_neg (by simp), ih]
      · rw [List.filter_cons_of_pos (by simpa using hcurrent), ← ih]
        by_cases hparent : piece = ".."
        · rw [hparent, List.filterMap_cons_some (by rfl)]
          rfl
        · have hnormal : component? piece = some (.normal piece) := by
            rw [component?, if_neg (by simp [hempty, hcurrent]), if_neg hparent]
          rw [List.filterMap_cons_some hnormal]
          rfl

theorem ofComponents_eq_descend (base : Path) (components : List Component) :
    ofComponents base components = base.descend (components.map Component.text) := by
  rw [ofComponents, descend, List.foldl_map]

theorem ofComponents_body (base p : Path) :
    ofComponents base (p.pieces.filterMap component?) = base.descend p.way := by
  rw [ofComponents_eq_descend, map_text_filterMap]
  rfl

/-! ## Absolute paths -/

/-- Where a path begins that is made absolute, seen from `d`. -/
inductive IsBase (p d : Path) : Path → Prop
  | root : p.isAbsolute = true → IsBase p d ⟨"/"⟩
  | doubled : p.isAbsolute = true → IsBase p d ⟨"//"⟩
  | relative : p.isAbsolute = false → IsBase p d d

/-- The components of a relative path begin with no `.` but the one that says nothing. -/
theorem components_of_relative (habs : p.isAbsolute = false) :
    p.components = .current :: p.pieces.filterMap component? ∨
      p.components = p.pieces.filterMap component? ∧
        ∀ rest, p.pieces.filterMap component? ≠ .current :: rest := by
  rw [components, if_neg (by rw [habs]; decide)]
  split
  · exact .inl rfl
  · refine .inr ⟨rfl, fun rest hrest => ?_⟩
    have hmem : .current ∈ p.pieces.filterMap component? := by simp [hrest]
    obtain ⟨piece, -, hpiece⟩ := List.mem_filterMap.mp hmem
    rw [component?] at hpiece
    split at hpiece
    · cases hpiece
    · split at hpiece <;> cases hpiece

/-- **What a path comes down to** that is made absolute. -/
theorem exists_base_of_absoluteFrom? (h : p.absoluteFrom? d = some q) :
    ∃ base, IsBase p d base ∧
      q = if p.endsWithSlash then (base.descend p.way).child "" else base.descend p.way := by
  have hgo : ∀ whole : Path, (∃ base, IsBase p d base ∧ whole = base.descend p.way) →
      ∃ base, IsBase p d base ∧ (if p.endsWithSlash then whole.child "" else whole) =
        if p.endsWithSlash then (base.descend p.way).child "" else base.descend p.way := by
    rintro whole ⟨base, hbase, rfl⟩
    exact ⟨base, hbase, rfl⟩
  rw [absoluteFrom?] at h
  split at h
  · exact absurd h (by simp)
  · obtain rfl := Option.some.inj h
    refine hgo _ ?_
    cases habs : p.isAbsolute with
    | true =>
      have hbody : p.components = .root :: p.pieces.filterMap component? := by
        rw [components, if_pos habs]
      have hhead : p.text.toList.head? = some '/' := by simpa [isAbsolute] using habs
      rw [hbody]
      split
      · exact ⟨⟨"/"⟩, .root habs, ofComponents_body ⟨"/"⟩ p⟩
      · exact ⟨⟨"//"⟩, .doubled habs, ofComponents_body ⟨"//"⟩ p⟩
      · exact ⟨⟨"/"⟩, .root habs, ofComponents_body ⟨"/"⟩ p⟩
      · rename_i hslash
        obtain ⟨rest, hrest⟩ := List.head?_eq_some_iff.mp hhead
        exact absurd hrest (hslash rest)
    | false =>
      have hhead : p.text.toList.head? ≠ some '/' := by simpa [isAbsolute] using habs
      refine ⟨d, .relative habs, ?_⟩
      split
      · rename_i htext
        exact absurd (by rw [htext]; rfl) hhead
      · rename_i htext
        exact absurd (by rw [htext]; rfl) hhead
      · rename_i htext
        exact absurd (by rw [htext]; rfl) hhead
      · rcases components_of_relative habs with hbody | ⟨hbody, hno⟩
        · rw [hbody]
          exact ofComponents_body d p
        · rw [hbody]
          split
          · rename_i rest hrest
            exact absurd hrest (hno rest)
          · exact ofComponents_body d p

/-! ## Texts of absolute paths -/

theorem steps_absoluteFrom? (h : p.absoluteFrom? d = some q) :
    steps q = (if p.isAbsolute then [] else steps d) ++ p.way := by
  obtain ⟨base, hbase, rfl⟩ := exists_base_of_absoluteFrom? h
  have hwhole : steps (base.descend p.way) =
      (if p.isAbsolute then [] else steps d) ++ p.way := by
    rw [steps_descend_of_pieces base (isPiece_of_mem_way p)]
    cases hbase with
    | root habs => simp [habs, show steps ⟨"/"⟩ = [] by decide]
    | doubled habs => simp [habs, show steps ⟨"//"⟩ = [] by decide]
    | relative habs => simp [habs]
  split
  · rw [child, FileSystem.steps_join _ (by decide), hwhole, FileSystem.steps_empty,
      List.append_nil]
  · exact hwhole

theorem isAbsolute_of_absoluteFrom? (hd : d.isAbsolute = true) (h : p.absoluteFrom? d = some q) :
    q.isAbsolute = true := by
  obtain ⟨base, hbase, rfl⟩ := exists_base_of_absoluteFrom? h
  have hwhole : (base.descend p.way).isAbsolute = true := by
    rw [isAbsolute_descend_of_pieces base (isPiece_of_mem_way p)]
    cases hbase with
    | root => decide
    | doubled => decide
    | relative => exact hd
  split
  · rw [child, isAbsolute_join _ (by decide), hwhole]
  · exact hwhole

/-- A slash at the end stays one. -/
theorem endsWithSlash_absoluteFrom? (h : p.absoluteFrom? d = some q) (hne : p.way ≠ []) :
    q.endsWithSlash = p.endsWithSlash := by
  obtain ⟨base, -, rfl⟩ := exists_base_of_absoluteFrom? h
  have hwhole := not_endsWithSlash_descend base (isPiece_of_mem_way p) hne
  cases hslash : p.endsWithSlash with
  | false => simpa using hwhole
  | true =>
    have htext : (base.descend p.way).text ≠ "" := by
      refine text_ne_empty_of_steps ?_
      rw [steps_descend_of_pieces base (isPiece_of_mem_way p)]
      simp [hne]
    rw [if_pos rfl, child, join_of_relative _ (by decide), seam_eq htext hwhole,
      String.append_empty, endsWithSlash_append (by decide)]
    decide

theorem hasNul_absoluteFrom? (hd : p.isAbsolute = false → hasNul d = false)
    (h : p.absoluteFrom? d = some q) : hasNul q = hasNul p := by
  obtain ⟨base, hbase, rfl⟩ := exists_base_of_absoluteFrom? h
  have hwhole : hasNul (base.descend p.way) = hasNul p := by
    rw [hasNul_descend_of_pieces base (isPiece_of_mem_way p), FileSystem.hasNul_eq_any p]
    cases hbase with
    | root => rfl
    | doubled => rfl
    | relative habs => rw [hd habs, Bool.false_or]
  split
  · rw [child, FileSystem.hasNul_join _ (by decide), hwhole]
    exact Bool.or_false _
  · exact hwhole

end Path

end PluginManager
