import PluginManager.Proofs.FileSystem.Shrink
import PluginManager.Proofs.FileSystem.Written

/-!
# The same entries in another order

Two file systems may have the same entries and list them in different orders.  What a path leads to
is the same in both, and a run of removals comes to the same in whatever order it is made.

* `SameEntries`: the same entries, in whatever order they are listed.  `SameEntries.of_perm`: **each
  of these orders** is one.
* `SameEntries.find_eq`, `writable_eq`: paths are followed alike, up to the errors.
* `removeAlls_of_shrinks`: **a run of removals succeeds** where what is left in the end is enough to
  follow the path behind which it goes.
* `exists_removeAlls_of_perm`: **removals in another order** succeed too, and leave the same.
-/

namespace PluginManager.FileSystem

variable {fs fs' fs'' s s' : FileSystem} {Q : Location → Prop} {l k : Location} {p : Path}
  {names : List String} {rs rs' : List (List String)} {last slash : Bool}

/-! ## The same entries -/

theorem lookup_eq_of_perm {entries entries' : List (Location × Entry)} (l : Location)
    (h : entries'.Perm entries) (hdistinct : (entries.map Prod.fst).Nodup) :
    entries'.lookup l = entries.lookup l := by
  induction h with
  | nil => rfl
  | cons x _ ih =>
    rw [List.lookup_cons, List.lookup_cons, ih (List.nodup_cons.mp hdistinct).2]
  | swap x y rest =>
    have hne : x.1 ≠ y.1 := by
      rw [List.map_cons, List.map_cons, List.nodup_cons, List.mem_cons, not_or] at hdistinct
      exact hdistinct.1.1
    rw [List.lookup_cons, List.lookup_cons, List.lookup_cons, List.lookup_cons]
    by_cases hx : l = x.1
    · rw [beq_eq_false_iff_ne.mpr (hx ▸ hne)]
    · rw [beq_eq_false_iff_ne.mpr hx]
  | trans hfirst hsecond ihfirst ihsecond =>
    rw [ihfirst ((hsecond.map Prod.fst).nodup_iff.mpr hdistinct), ihsecond hdistinct]

/-- The same entries, in whatever order they are listed. -/
structure SameEntries (fs fs' : FileSystem) : Prop where
  lookup : ∀ l, fs'.lookup l = fs.lookup l
  workingDirectory : fs'.workingDirectory = fs.workingDirectory

namespace SameEntries

/-- Each entry is listed once, so that nothing but the order is different. -/
theorem of_perm {entries : List (Location × Entry)} (hwf : fs.WellFormed)
    (h : entries.Perm fs.entries) : SameEntries fs { fs with entries } := by
  refine ⟨fun l => ?_, rfl⟩
  cases l with
  | nil => rfl
  | cons name rest => exact lookup_eq_of_perm (name :: rest) h hwf.distinct

variable (h : SameEntries fs fs')

include h

theorem isDirectoryAt_eq (l : Location) : fs'.isDirectoryAt l = fs.isDirectoryAt l := by
  rw [FileSystem.isDirectoryAt, h.lookup, ← FileSystem.isDirectoryAt]

theorem pass_eq (l : Location) (kind : LastPiece) (pieces : List String) :
    pass fs' last slash l kind pieces = pass fs last slash l kind pieces := by
  induction pieces generalizing l kind with
  | nil => rw [pass, pass, h.lookup]
  | cons piece rest ih =>
    rw [pass, pass]
    simp only [h.lookup, ih]

theorem follow_eq (links : Nat) (slash : Bool) (l : Location) (pieces : List String) :
    follow fs' last links slash l pieces = follow fs last links slash l pieces := by
  induction links generalizing slash l pieces with
  | zero =>
    unfold follow
    rw [h.pass_eq]
  | succ links ih =>
    unfold follow
    simp only [h.pass_eq, ih]

theorem resolve_eq (last : Bool) (p : Path) : resolve fs' last p = resolve fs last p := by
  simp only [resolve, h.workingDirectory, h.isDirectoryAt_eq, h.follow_eq]

theorem find_eq (last : Bool) (p : Path) : find fs' last p = find fs last p := by
  rw [find, find, h.resolve_eq]

theorem writable_eq (p : Path) : writable fs' p = writable fs p := by
  rw [writable, writable, h.resolve_eq]

theorem setContent (hl : l ≠ []) (mode : Nat) (content : Bytes) :
    SameEntries (fs.setContent l mode content) (fs'.setContent l mode content) := by
  refine ⟨fun m => ?_, h.workingDirectory⟩
  rw [lookup_setContent _ hl, lookup_setContent _ hl, h.lookup]

end SameEntries

/-! ## Removals in another order -/

/-- All that is looked up on the way to a directory is there. -/
theorem Walk.present {Q : Location → Prop} {pieces : List String} {n : Nat}
    (h : Walk fs Q l pieces k n) (hk : fs.isDirectoryAt k = true) :
    Walk fs (fun l => fs.lookup l ≠ none) l pieces k n := by
  induction h with
  | done _ => exact .done (lookup_ne_none hk)
  | current _ ih => exact .current (ih hk)
  | parent _ ih => exact .parent (ih hk)
  | directory hp _ he _ ih => exact .directory hp (by simp [he]) he (ih hk)
  | file hp _ he => exact .file hp (by simp [he]) he
  | link hp _ he _ ih => exact .link hp (by simp [he]) he (ih hk)

theorem Route.present (h : Route fs Q p k) (hk : fs.isDirectoryAt k = true) :
    Route fs (fun l => fs.lookup l ≠ none) p k := by
  obtain ⟨n, hn, hwalk⟩ := h.walk
  exact ⟨lookup_ne_none h.directory, h.directory, n, hn, hwalk.present hk⟩

/-- What is there is still there when something else was taken away. -/
theorem Shrinks.of_placed {d : Location} (h : Shrinks fs s) (hput : Placed d .empty fs fs')
    (hgone : ∀ l, d <+: l → s.lookup l = none) (hwf : s.WellFormed) : Shrinks fs' s := by
  refine ⟨fun l e he => ?_, ?_, fun _ => hwf⟩
  · rw [hput.changes.lookup l, h.lookup l e he]
    intro hl
    rw [hgone l hl] at he
    exact absurd he (by simp)
  · rw [h.workingDirectory, hput.changes.workingDirectory]

/-- **A run of removals succeeds** where what is left in the end is enough to follow the path behind
which it goes, and leaves no less than that. -/
theorem removeAlls_of_shrinks (hwf : fs.WellFormed) (hs : Shrinks fs s)
    (hrs : ∀ r ∈ rs, r ≠ [] ∧ fs.lookup (k ++ r) ≠ none ∧ Fits p r) (hapart : rs.Pairwise Apart)
    (hgone : ∀ r ∈ rs, ∀ l, k ++ r <+: l → s.lookup l = none) (hroute : Route s Q p k)
    (hk : s.isDirectoryAt k = true) :
    ∃ fs', ((rs.map p.descend).forM fun q => Task.forPath q (removeAll q) : Task Unit) fs =
      .ok () fs' ∧ Shrinks fs' s := by
  induction rs generalizing fs with
  | nil => exact ⟨fs, rfl, hs⟩
  | cons r rest ih =>
    obtain ⟨⟨hne, he, hfits⟩, hrest⟩ := List.forall_mem_cons.mp hrs
    obtain ⟨hfirst, hpairs⟩ := List.pairwise_cons.mp hapart
    obtain ⟨hgoner, hgonerest⟩ := List.forall_mem_cons.mp hgone
    have hnames : ∀ name ∈ r, IsName name := fun name hname =>
      hwf.isName he name (List.mem_append_right k hname)
    have hremove := removeAll_of_clear ((hroute.present hk).of_guides hs.guides hk)
      (hs.guides.directory k hk) hnames hne (hwf.clear he) hfits fun l hl hp => hl (hgoner l hp)
    have hput := placed_without hwf (by simp [hne] : k ++ r ≠ [])
    have hwf₁ := ((leaves_removeAll fs _).ok () _ hremove).wellFormed hwf
    have hstay : ∀ r' ∈ rest, (fs.without (k ++ r)).lookup (k ++ r') = fs.lookup (k ++ r') := by
      intro r' hr'
      refine hput.changes.lookup _ fun hp => (hfirst r' hr').1 ?_
      exact (List.prefix_append_right_inj k).mp hp
    obtain ⟨fs', hrun, hs'⟩ := ih hwf₁ (hs.of_placed hput hgoner (hs.wellFormed hwf))
      (fun r' hr' => by rw [hstay r' hr']; exact hrest r' hr') hpairs hgonerest
    exact ⟨fs', Task.forM_cons_eq_ok.mpr ⟨_, Task.forPath_eq_ok.mpr hremove, hrun⟩, hs'⟩

/-- What could be removed, one after the other, has names and paths that are short enough. -/
theorem fits_of_removeAlls (hwf : fs.WellFormed)
    (hrs : ∀ r ∈ rs, r ≠ [] ∧ fs.lookup (k ++ r) ≠ none) (hapart : rs.Pairwise Apart)
    (hroute : Route s Q p k) (hk : s.isDirectoryAt k = true)
    (h : ((rs.map p.descend).forM fun q => Task.forPath q (removeAll q) : Task Unit) fs =
      .ok () s) : ∀ r ∈ rs, Fits p r := by
  induction rs generalizing fs with
  | nil => exact fun r hr => absurd hr (by simp)
  | cons r rest ih =>
    obtain ⟨⟨hne, he⟩, hrest⟩ := List.forall_mem_cons.mp hrs
    obtain ⟨hfirst, hpairs⟩ := List.pairwise_cons.mp hapart
    obtain ⟨fs₁, hremove, hrun⟩ := Task.forM_cons_eq_ok.mp h
    replace hremove := Task.forPath_eq_ok.mp hremove
    have hshrinks₁ := (leaves_removeAll fs _).ok () fs₁ hremove
    have hshrinks := (leaves_removeAlls fs₁ (rest.map p.descend)).ok () s hrun
    have hguides := (hshrinks₁.trans hshrinks).guides
    have hput := placed_of_removeAll_of_route hwf hne he (hroute.of_guides hshrinks.guides hk)
      (hshrinks.guides.directory k hk) hremove
    have hstay : ∀ r' ∈ rest, fs₁.lookup (k ++ r') = fs.lookup (k ++ r') := by
      intro r' hr'
      refine hput.changes.lookup _ fun hp => (hfirst r' hr').1 ?_
      exact (List.prefix_append_right_inj k).mp hp
    refine List.forall_mem_cons.mpr ⟨?_, ih (hshrinks₁.wellFormed hwf) (fun r' hr' => ?_) hpairs
      hrun⟩
    · exact fits_of_removeAll hwf hne he (hroute.of_guides hguides hk)
        (hguides.directory k hk) hremove
    · rw [hstay r' hr']
      exact hrest r' hr'

/-- What is left of the same entries when the same was cleared. -/
theorem SameEntries.of_cleared (h : SameEntries fs fs') (hs : Cleared k rs fs s)
    (hs' : Cleared k rs' fs' s') (hmem : ∀ r, r ∈ rs' ↔ r ∈ rs) : SameEntries s s' := by
  refine ⟨fun l => ?_, ?_⟩
  · by_cases hgone : ∃ r ∈ rs, k ++ r <+: l
    · obtain ⟨r, hr, hl⟩ := hgone
      rw [hs.gone r hr l hl, hs'.gone r ((hmem r).mpr hr) l hl]
    · have hstays : ¬ ∃ r ∈ rs', k ++ r <+: l := by simpa only [hmem] using hgone
      rw [hs.changes.lookup l hgone, hs'.changes.lookup l hstays, h.lookup]
  · rw [hs'.changes.workingDirectory, h.workingDirectory, hs.changes.workingDirectory]

/-- **Removals in another order** succeed too, and leave the same. -/
theorem exists_removeAlls_of_perm (hwf : fs.WellFormed) (hwf' : fs'.WellFormed)
    (hsame : SameEntries fs fs') (hrs : ∀ r ∈ rs, r ≠ [] ∧ fs.lookup (k ++ r) ≠ none)
    (hapart : rs.Pairwise Apart) (hperm : rs'.Perm rs) (hroute : Route s Q p k)
    (hk : s.isDirectoryAt k = true)
    (h : ((rs.map p.descend).forM fun q => Task.forPath q (removeAll q) : Task Unit) fs =
      .ok () s) :
    ∃ s', ((rs'.map p.descend).forM fun q => Task.forPath q (removeAll q) : Task Unit) fs' =
      .ok () s' ∧ SameEntries s s' := by
  have hshrinks := (leaves_removeAlls fs (rs.map p.descend)).ok () s h
  have hfits := fits_of_removeAlls hwf hrs hapart hroute hk h
  have hcleared := cleared_of_removeAlls hwf hrs hapart hroute hk h
  have hapart' : rs'.Pairwise Apart := hapart.perm hperm.symm fun h => h.symm
  have hrs' : ∀ r ∈ rs', r ≠ [] ∧ fs'.lookup (k ++ r) ≠ none := by
    intro r hr
    rw [hsame.lookup]
    exact hrs r (hperm.mem_iff.mp hr)
  have hshrinks' : Shrinks fs' s := by
    refine ⟨fun l e he => ?_, ?_, fun _ => hshrinks.wellFormed hwf⟩
    · rw [hsame.lookup]
      exact hshrinks.lookup l e he
    · rw [hshrinks.workingDirectory, hsame.workingDirectory]
  obtain ⟨s', hrun, hs⟩ := removeAlls_of_shrinks hwf' hshrinks'
    (fun r hr => ⟨(hrs' r hr).1, (hrs' r hr).2, hfits r (hperm.mem_iff.mp hr)⟩) hapart'
    (fun r hr => hcleared.gone r (hperm.mem_iff.mp hr)) hroute hk
  have hcleared' := cleared_of_removeAlls hwf' hrs' hapart' (hroute.of_guides hs.guides hk)
    (hs.guides.directory k hk) hrun
  exact ⟨s', hrun, hsame.of_cleared hcleared hcleared' fun r => hperm.mem_iff⟩

end PluginManager.FileSystem
