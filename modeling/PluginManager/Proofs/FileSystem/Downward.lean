import PluginManager.Proofs.FileSystem.Reaches
import PluginManager.Proofs.Path.Downward

/-!
# Following paths that only go down

Behind a path that leads to a directory, a path that only goes down leads where its names alone
would lead, as long as no link stands on the way.

* `route_of_find`: the way to a directory that was found.
* `Route.way_of_find`: **what is known of the names** when the path was followed.
* `Route.join`: a way on through directories.
* `Usable.descend`: the names alone are no longer than the path.
-/

namespace PluginManager.FileSystem

variable {fs : FileSystem} {Q : Location → Prop} {l k : Location} {p q : Path}
  {pieces names : List String} {links : Nat} {last slash : Bool} {kind : LastPiece} {spot : Spot}
  {e : Entry} {mode : Nat}

/-! ## Texts -/

/-- The names alone can be followed when the path can be. -/
theorem Usable.descend (h : Usable (p.join q)) (hq : q.GoesDown) (hne : q.way ≠ []) :
    Usable (p.descend q.way) := by
  have hjoin := Path.join_of_relative p hq.relative
  have hdescend := Path.descend_eq_seam p hq.isName hne
  refine ⟨?_, Path.text_ne_empty_of_steps ?_, ?_⟩
  · have hno := h.no_nul
    rw [hjoin, hasNul, List.any_eq_false] at hno
    rw [hdescend, hasNul, List.any_eq_false]
    intro c hc
    rw [String.toList_append, List.mem_append] at hc
    rcases hc with hc | hc
    · exact hno c (by rw [String.toList_append, List.mem_append]; exact .inl hc)
    · rcases Path.mem_intercalate hc with rfl | ⟨piece, hpiece, hc⟩
      · decide
      · have hmem := Path.mem_text_of_mem_pieces (q.way_sublist_pieces.subset hpiece) hc
        exact hno c (by rw [String.toList_append, List.mem_append]; exact .inr hmem)
  · rw [Path.steps_descend p hq.isName]
    simp [hne]
  · have hshort := h.short
    have hle := Path.utf8ByteSize_le_of_sublist q.way_sublist_pieces hne
    rw [Path.intercalate_pieces] at hle
    rw [hjoin, String.utf8ByteSize_append] at hshort
    rw [hdescend, String.utf8ByteSize_append]
    omega

/-! ## What was followed -/

/-- Where a path leads to a directory, there is a way. -/
theorem Reaches.walk (h : Reaches fs true links slash l kind pieces spot)
    (hd : spot.entry = some (.directory mode)) :
    ∃ n, n ≤ links ∧ Walk fs (fun _ => True) l pieces spot.location n := by
  induction h with
  | done => exact ⟨0, Nat.zero_le _, .done trivial⟩
  | current _ ih =>
    obtain ⟨n, hn, hwalk⟩ := ih hd
    exact ⟨n, hn, .current hwalk⟩
  | parent _ ih =>
    obtain ⟨n, hn, hwalk⟩ := ih hd
    exact ⟨n, hn, .parent hwalk⟩
  | directory hp hdir _ ih =>
    obtain ⟨n, hn, hwalk⟩ := ih hd
    obtain ⟨mode', hmode⟩ := isDirectoryAt_iff.mp hdir
    exact ⟨n, hn, .directory hp trivial hmode hwalk⟩
  | stop hp _ => exact ⟨0, Nat.zero_le _, .directory hp trivial hd (.done trivial)⟩
  | link hp he _ _ ih =>
    obtain ⟨n, hn, hwalk⟩ := ih hd
    exact ⟨n + 1, Nat.succ_le_succ hn, .link hp trivial he hwalk⟩

theorem route_of_find (h : find fs true p = .ok (k, .directory mode)) :
    Route fs (fun _ => True) p k := by
  obtain ⟨spot, hres, rfl, hentry, -⟩ := find_eq_ok_iff.mp h
  obtain ⟨n, hn, hwalk⟩ := (reaches_of_resolve hres).walk hentry
  exact ⟨trivial, isDirectoryAt_start_of_resolve hres, n, hn, hwalk⟩

/-- All names of a path that was followed were looked up. -/
theorem Reaches.short (h : Reaches fs last links slash l kind pieces spot) :
    ∀ s ∈ pieces, s ≠ "." → s ≠ ".." → s.utf8ByteSize ≤ nameLimit := by
  induction h with
  | done => exact fun s hs => absurd hs (by simp)
  | current _ ih =>
    intro s hs hcurrent hparent
    exact ih s ((List.mem_cons.mp hs).resolve_left hcurrent) hcurrent hparent
  | parent _ ih =>
    intro s hs hcurrent hparent
    exact ih s ((List.mem_cons.mp hs).resolve_left hparent) hcurrent hparent
  | directory hp _ _ ih =>
    intro s hs hcurrent hparent
    rcases List.mem_cons.mp hs with rfl | hs
    · exact hp.short
    · exact ih s hs hcurrent hparent
  | stop hp _ =>
    intro s hs _ _
    rw [List.mem_singleton.mp hs]
    exact hp.short
  | link hp _ _ _ ih =>
    intro s hs hcurrent hparent
    rcases List.mem_cons.mp hs with rfl | hs
    · exact hp.short
    · exact ih s (List.mem_append_right _ hs) hcurrent hparent

theorem short_of_find (hq : q.GoesDown) (h : find fs last (p.join q) = .ok (k, e)) :
    ∀ n ∈ q.way, n.utf8ByteSize ≤ nameLimit := by
  intro n hn
  obtain ⟨spot, hres, -⟩ := find_eq_ok_iff.mp h
  have hname := hq.isName n hn
  refine (reaches_of_resolve hres).short n ?_ hname.ne_current hname.ne_parent
  rw [steps_join p hq.relative]
  exact List.mem_append_right _ (List.mem_of_mem_filter hn)

/-- Pieces that only go down lead to the location of their names, or to a link there. -/
theorem Reaches.clear (h : Reaches fs true links slash l kind pieces spot)
    (hdown : ".." ∉ pieces) (hl : fs.isDirectoryAt l = true)
    (hlinks : NoLinks fs l (pieces.filter (· ≠ "."))) :
    Clear fs l (pieces.filter (· ≠ ".")) ∧
      (spot.location = l ++ pieces.filter (· ≠ ".") ∨
        ∃ target, fs.lookup (l ++ pieces.filter (· ≠ ".")) = some (.link target)) := by
  induction h with
  | done =>
    refine ⟨fun pre hpre hne => absurd (List.prefix_nil.mp hpre) hne, .inl ?_⟩
    simp
  | current _ ih =>
    rw [List.mem_cons, not_or] at hdown
    rw [List.filter_cons_of_neg (by simp)] at hlinks ⊢
    exact ih hdown.2 hl hlinks
  | parent _ _ => exact absurd List.mem_cons_self hdown
  | @directory _ _ l _ piece rest _ hp hd _ ih =>
    rw [List.mem_cons, not_or] at hdown
    rw [List.filter_cons_of_pos (by simpa using hp.ne_current)] at hlinks ⊢
    obtain ⟨hclear, hends⟩ := ih hdown.2 hd hlinks.tail
    refine ⟨hclear.cons hl, ?_⟩
    rwa [List.append_assoc] at hends
  | @stop _ _ l _ piece hp _ =>
    rw [List.filter_cons_of_pos (by simpa using hp.ne_current), List.filter_nil]
    exact ⟨clear_singleton hl piece, .inl rfl⟩
  | @link _ _ l _ piece rest _ target hp he _ _ _ =>
    rw [List.filter_cons_of_pos (by simpa using hp.ne_current)] at hlinks ⊢
    by_cases hrest : rest.filter (· ≠ ".") = []
    · rw [hrest]
      exact ⟨clear_singleton hl piece, .inr ⟨target, he⟩⟩
    · exact absurd he (hlinks [piece] (by simp) (by simpa using Ne.symm hrest) target)

/-- **What is known of the names** of a path that was followed. -/
theorem Route.way_of_find (h : Route fs Q p k) (hk : fs.isDirectoryAt k = true)
    (hq : q.GoesDown) (hne : q.way ≠ []) (hlinks : NoLinks fs k q.way)
    (hf : find fs true (p.join q) = .ok (l, e)) :
    Clear fs k q.way ∧ Fits p q.way ∧
      (fs.lookup (k ++ q.way) = some e ∨
        ∃ target, fs.lookup (k ++ q.way) = some (.link target)) := by
  have hu := usable_of_find hf
  obtain ⟨spot, hres, rfl, hentry, -⟩ := find_eq_ok_iff.mp hf
  have hrest : steps q ≠ [] := by
    intro hnil
    rw [Path.way, hnil] at hne
    exact hne rfl
  obtain ⟨links, kind, hfollow⟩ := h.resolve_append true hk hu (Path.isAbsolute_join p hq.relative)
    (steps_join p hq.relative) hrest
  rw [Bool.true_or, hfollow] at hres
  have hreaches := reaches_of_followFrom hres
  obtain ⟨hclear, hends⟩ := hreaches.clear hq.no_parent hk hlinks
  refine ⟨hclear, ⟨hu.descend hq hne, short_of_find hq hf⟩, hends.imp_left fun hlocation => ?_⟩
  rw [← hentry, hreaches.entry_eq, hlocation]
  rfl

/-! ## Following on -/

theorem Walk.down (hdown : ".." ∉ pieces)
    (hshort : ∀ n ∈ pieces.filter (· ≠ "."), n.utf8ByteSize ≤ nameLimit)
    (hd : ∀ pre, pre <+: pieces.filter (· ≠ ".") → fs.isDirectoryAt (k ++ pre) = true) :
    Walk fs (fun _ => True) k pieces (k ++ pieces.filter (· ≠ ".")) 0 := by
  induction pieces generalizing k with
  | nil =>
    rw [List.filter_nil, List.append_nil]
    exact .done trivial
  | cons piece rest ih =>
    rw [List.mem_cons, not_or] at hdown
    by_cases hcurrent : piece = "."
    · rw [hcurrent, List.filter_cons_of_neg (by simp)] at hshort hd ⊢
      exact .current (ih hdown.2 hshort hd)
    · rw [List.filter_cons_of_pos (by simpa using hcurrent)] at hshort hd ⊢
      obtain ⟨mode, hmode⟩ := isDirectoryAt_iff.mp (hd [piece] (by simp))
      have hwalk := @ih (k ++ [piece]) hdown.2
        (fun n hn => hshort n (List.mem_cons_of_mem piece hn)) fun pre hpre => by
          rw [List.append_assoc]
          exact hd (piece :: pre) (List.cons_prefix_cons.mpr ⟨rfl, hpre⟩)
      rw [List.append_assoc] at hwalk
      exact .directory ⟨hcurrent, Ne.symm hdown.1, hshort piece List.mem_cons_self⟩ trivial hmode
        hwalk

/-- A route goes on through directories. -/
theorem Route.join (h : Route fs (fun _ => True) p k) (hk : fs.isDirectoryAt k = true)
    (hq : q.GoesDown) (hshort : ∀ n ∈ q.way, n.utf8ByteSize ≤ nameLimit)
    (hd : ∀ pre, pre <+: q.way → fs.isDirectoryAt (k ++ pre) = true) :
    Route fs (fun _ => True) (p.join q) (k ++ q.way) := by
  obtain ⟨n, hn, hwalk⟩ := h.walk
  have hstart : fs.start (p.join q) = fs.start p := by
    rw [FileSystem.start, FileSystem.start, Path.isAbsolute_join p hq.relative]
  refine ⟨trivial, by rw [hstart]; exact h.directory, n, hn, ?_⟩
  rw [hstart, steps_join p hq.relative]
  exact hwalk.append hk (Walk.down hq.no_parent hshort hd)

end PluginManager.FileSystem
