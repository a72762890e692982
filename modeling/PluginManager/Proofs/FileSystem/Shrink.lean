import PluginManager.Proofs.FileSystem.Leaves
import PluginManager.Proofs.FileSystem.Reaches
import PluginManager.Proofs.FileSystem.Remove
import PluginManager.Proofs.FileSystem.Times

/-!
# Removing one path after the other

Removing takes entries away and puts none in place, so a path that is followed after a run of
removals was followed all the time.

* `Shrinks`: what is there was there before.
* `Removal`, `removal_of_removeAll`: all that a removal can do, whatever comes of it.
* `placed_of_removeAll_of_route`: what was removed behind a path that is still followed.
* `staysIn_of_removeAlls`: **a run of removals stays at its paths**, whatever comes of it.
* `Cleared`, `cleared_of_removeAlls`: **what is left** after a run of removals.
-/

namespace PluginManager.FileSystem

variable {fs fs' fs'' : FileSystem} {Q : Location → Prop} {l k : Location} {p : Path}
  {names : List String}

/-! ## Fewer entries -/

/-- What is there was there before, and still stands in directories. -/
structure Shrinks (fs fs' : FileSystem) : Prop where
  lookup : ∀ l e, fs'.lookup l = some e → fs.lookup l = some e
  workingDirectory : fs'.workingDirectory = fs.workingDirectory
  wellFormed : fs.WellFormed → fs'.WellFormed

namespace Shrinks

theorem refl (fs : FileSystem) : Shrinks fs fs := ⟨fun _ _ h => h, rfl, id⟩

theorem trans (h : Shrinks fs fs') (h' : Shrinks fs' fs'') : Shrinks fs fs'' :=
  ⟨fun l e he => h.lookup l e (h'.lookup l e he),
    h'.workingDirectory.trans h.workingDirectory, h'.wellFormed ∘ h.wellFormed⟩

theorem guides (h : Shrinks fs fs') : Guides fs' fs := by
  refine ⟨fun l hl => ?_, fun l target hl => h.lookup l _ hl, h.workingDirectory.symm⟩
  obtain ⟨mode, hmode⟩ := isDirectoryAt_iff.mp hl
  exact isDirectoryAt_of_lookup (h.lookup l _ hmode)

theorem lookup_eq_none (h : Shrinks fs fs') (hl : fs.lookup l = none) : fs'.lookup l = none := by
  cases he : fs'.lookup l with
  | none => rfl
  | some e =>
    rw [h.lookup l e he] at hl
    exact absurd hl (by simp)

end Shrinks

/-- Entries of which the directory stays, if they stay themselves. -/
theorem shrinks_filter (p : Location → Bool)
    (hentries : fs'.entries = fs.entries.filter fun x => p x.1)
    (hwd : fs'.workingDirectory = fs.workingDirectory)
    (hp : ∀ l n, p (l ++ [n]) = true → p l = true) : Shrinks fs fs' := by
  have hlookup : ∀ l, l ≠ [] → fs'.lookup l = if p l then fs.lookup l else none := by
    intro l hl
    rw [lookup_of_ne_nil hl, lookup_of_ne_nil hl, hentries, lookup_filter_key]
  have hkept : ∀ l n, fs'.lookup (l ++ [n]) ≠ none →
      p (l ++ [n]) = true ∧ fs.lookup (l ++ [n]) ≠ none := by
    intro l n hne
    rw [hlookup _ append_singleton_ne_nil] at hne
    split at hne
    · rename_i h
      exact ⟨h, hne⟩
    · exact absurd rfl hne
  refine ⟨fun l e he => ?_, hwd, fun hwf => ⟨fun l n hne => ?_, fun l n hne => ?_, ?_⟩⟩
  · by_cases hl : l = []
    · rwa [hl, lookup_nil] at he ⊢
    · rw [hlookup l hl] at he
      split at he
      · exact he
      · exact absurd he (by simp)
  · exact hwf.name l n (hkept l n hne).2
  · obtain ⟨hpl, hne⟩ := hkept l n hne
    by_cases hl : l = []
    · rw [hl]
      rfl
    · rw [FileSystem.isDirectoryAt, hlookup l hl, if_pos (hp l n hpl), ← FileSystem.isDirectoryAt]
      exact hwf.parent l n hne
  · rw [hentries, keys_filter]
    exact hwf.distinct.filter _

theorem not_isWithin_of_append {n : String} (h : (!isWithin l (k ++ [n])) = true) :
    (!isWithin l k) = true := by
  rw [Bool.not_eq_true', Bool.eq_false_iff, ne_eq, isWithin_iff] at h ⊢
  exact fun hlk => h (hlk.trans (List.prefix_append k [n]))

theorem shrinks_erase (fs : FileSystem) (l : Location) : Shrinks fs (fs.erase l) :=
  shrinks_filter (fun k => !isWithin l k) rfl rfl fun _ _ => not_isWithin_of_append

theorem shrinks_eraseBelow (fs : FileSystem) (l : Location) : Shrinks fs (fs.eraseBelow l) := by
  refine shrinks_filter (fun k => !isWithin l k || k = l) rfl rfl fun k n h => ?_
  rw [Bool.or_eq_true, decide_eq_true_eq] at h ⊢
  left
  rcases h with h | rfl
  · exact not_isWithin_of_append h
  · rw [Bool.not_eq_true', Bool.eq_false_iff, ne_eq, isWithin_iff]
    intro hp
    have hlength := hp.length_le
    rw [List.length_append, List.length_singleton] at hlength
    omega

/-! ## Removing -/

theorem exists_of_removeFile (h : removeFile fs p = .ok fs') :
    ∃ spot, resolve fs false p = .ok spot ∧ fs' = fs.erase spot.location := by
  rw [removeFile] at h
  split at h
  · exact absurd h (by simp)
  · rename_i spot hres
    split at h
    · exact absurd h (by simp)
    · split at h
      · exact absurd h (by simp)
      · exact absurd h (by simp)
      · split at h
        · exact absurd h (by simp)
        · exact ⟨spot, hres, (Except.ok.inj h).symm⟩

theorem exists_of_removeDirectory (h : removeDirectory fs p = .ok fs') :
    ∃ spot, resolve fs false p = .ok spot ∧ fs' = fs.erase spot.location := by
  rw [removeDirectory] at h
  split at h
  · exact absurd h (by simp)
  · rename_i spot hres
    split at h
    · exact absurd h (by simp)
    · exact absurd h (by simp)
    · exact absurd h (by simp)
    · split at h
      · exact absurd h (by simp)
      · split at h
        · exact ⟨spot, hres, (Except.ok.inj h).symm⟩
        · exact absurd h (by simp)
      · exact absurd h (by simp)

/-- A directory is emptied first, and then its path is followed once more. -/
theorem leaves_removeTree (fs : FileSystem) (l : Location) (p : Path) :
    Task.Leaves (removeTree l p) fs fun fs' => fs' = fs.eraseBelow l ∨
      ∃ spot, resolve (fs.eraseBelow l) false p = .ok spot ∧
        fs' = (fs.eraseBelow l).erase spot.location := by
  constructor
  · intro u fs' h
    rw [removeTree] at h
    cases hres : (fs.eraseBelow l).removeDirectory p with
    | ok fs₁ =>
      simp only [hres, EStateM.Result.ok.injEq] at h
      obtain ⟨-, rfl⟩ := h
      exact .inr (exists_of_removeDirectory hres)
    | error e =>
      cases e <;> simp only [hres, EStateM.Result.ok.injEq, reduceCtorEq] at h
      obtain ⟨-, rfl⟩ := h
      exact .inl rfl
  · intro e fs' h
    rw [removeTree] at h
    cases hres : (fs.eraseBelow l).removeDirectory p with
    | ok fs₁ => exact absurd h (by simp [hres])
    | error e' =>
      cases e' <;> simp only [hres, EStateM.Result.error.injEq, reduceCtorEq] at h
      all_goals
        obtain ⟨-, rfl⟩ := h
        exact .inl rfl

theorem shrinks_of_removeTree {u : Unit} (h : removeTree l p fs = .ok u fs') :
    Shrinks (fs.eraseBelow l) fs' := by
  rcases (leaves_removeTree fs l p).ok u fs' h with rfl | ⟨spot, -, rfl⟩
  · exact .refl _
  · exact shrinks_erase _ _

/-- What a removal may leave, whatever comes of it. -/
inductive Removal (fs : FileSystem) (p : Path) : FileSystem → Prop
  | nothing : Removal fs p fs
  | entry {spot} : resolve fs false p = .ok spot → Removal fs p (fs.erase spot.location)
  | below {l mode} : find fs false p = .ok (l, .directory mode) → Removal fs p (fs.eraseBelow l)
  | tree {l mode spot} : find fs false p = .ok (l, .directory mode) →
      resolve (fs.eraseBelow l) false p = .ok spot →
      Removal fs p ((fs.eraseBelow l).erase spot.location)

theorem removal_of_removeFile :
    Task.Leaves (FileTask.change (·.removeFile p)) fs (Removal fs p) := by
  constructor
  · intro u fs' h
    rw [FileTask.change] at h
    cases hres : removeFile fs p with
    | ok fs₁ =>
      simp only [hres, EStateM.Result.ok.injEq] at h
      obtain ⟨-, rfl⟩ := h
      obtain ⟨spot, hspot, rfl⟩ := exists_of_removeFile hres
      exact .entry hspot
    | error cause => exact absurd h (by simp [hres])
  · intro e fs' h
    rw [FileTask.change] at h
    cases hres : removeFile fs p with
    | ok fs₁ => exact absurd h (by simp [hres])
    | error cause =>
      simp only [hres, EStateM.Result.error.injEq] at h
      obtain ⟨-, rfl⟩ := h
      exact .nothing

/-- **All that a removal can do.** -/
theorem removal_of_removeAll (fs : FileSystem) (p : Path) :
    Task.Leaves (removeAll p) fs (Removal fs p) := by
  cases hfind : find fs false p with
  | error cause =>
    constructor
    · intro u fs' h
      rw [removeAll, hfind] at h
      cases cause <;> simp only [EStateM.Result.ok.injEq, reduceCtorEq] at h
      obtain ⟨-, rfl⟩ := h
      exact .nothing
    · intro e fs' h
      rw [removeAll, hfind] at h
      cases cause <;> simp only [EStateM.Result.error.injEq, reduceCtorEq] at h
      all_goals
        obtain ⟨-, rfl⟩ := h
        exact .nothing
  | ok x =>
    obtain ⟨l, e⟩ := x
    cases e with
    | directory mode =>
      have htree : Task.Leaves (removeTree l p) fs (Removal fs p) := by
        refine (leaves_removeTree fs l p).mono fun fs' h => ?_
        rcases h with rfl | ⟨spot, hspot, rfl⟩
        · exact .below hfind
        · exact .tree hfind hspot
      exact htree.congr (by rw [removeAll, hfind])
    | file mode content => exact removal_of_removeFile.congr (by rw [removeAll, hfind])
    | link target => exact removal_of_removeFile.congr (by rw [removeAll, hfind])

theorem Removal.shrinks (h : Removal fs p fs') : Shrinks fs fs' := by
  cases h with
  | nothing => exact .refl fs
  | entry _ => exact shrinks_erase fs _
  | below _ => exact shrinks_eraseBelow fs _
  | tree _ _ => exact (shrinks_eraseBelow fs _).trans (shrinks_erase _ _)

theorem Removal.sublist (h : Removal fs p fs') : fs'.entries.Sublist fs.entries := by
  have herase : ∀ (fs : FileSystem) l, (fs.erase l).entries.Sublist fs.entries :=
    fun _ _ => List.filter_sublist
  have hbelow : ∀ (fs : FileSystem) l, (fs.eraseBelow l).entries.Sublist fs.entries :=
    fun _ _ => List.filter_sublist
  cases h with
  | nothing => exact List.Sublist.refl _
  | entry _ => exact herase fs _
  | below _ => exact hbelow fs _
  | tree _ _ => exact (herase _ _).trans (hbelow fs _)

/-- **Whatever comes of a removal**, nothing is put in place. -/
theorem leaves_removeAll (fs : FileSystem) (p : Path) :
    Task.Leaves (removeAll p) fs (Shrinks fs) :=
  (removal_of_removeAll fs p).mono fun _ h => h.shrinks

theorem leaves_removeAlls (fs : FileSystem) (ps : List Path) :
    Task.Leaves (ps.forM fun p => Task.forPath p (removeAll p) : Task Unit) fs (Shrinks fs) :=
  Task.leaves_forM (.refl fs) fun p _ fs₁ h =>
    (Task.leaves_forPath (leaves_removeAll fs₁ p)).mono fun _ h' => h.trans h'

/-- What is left keeps its order. -/
theorem sublist_of_removeAlls (fs : FileSystem) (ps : List Path) :
    Task.Leaves (ps.forM fun p => Task.forPath p (removeAll p) : Task Unit) fs
      fun fs' => fs'.entries.Sublist fs.entries :=
  Task.leaves_forM (List.Sublist.refl _) fun p _ fs₁ h =>
    Task.leaves_forPath ((removal_of_removeAll fs₁ p).mono fun _ hremoval =>
      hremoval.sublist.trans h)

/-! ## What was removed -/

theorem WellFormed.clear (hwf : fs.WellFormed) (h : fs.lookup (k ++ names) ≠ none) :
    Clear fs k names := by
  rintro pre ⟨rest, rfl⟩ hne
  rw [← List.append_assoc] at h
  exact hwf.isDirectoryAt (fun hrest => hne (by rw [hrest, List.append_nil])) h

/-- Names behind a route lead to their own location, unless that is a link. -/
theorem Route.location_of_find {last : Bool} {e : Entry} (h : Route fs Q p k)
    (hk : fs.isDirectoryAt k = true) (hwf : fs.WellFormed) (hne : names ≠ [])
    (he : fs.lookup (k ++ names) ≠ none)
    (hlast : last = false ∨ ∀ target, fs.lookup (k ++ names) ≠ some (.link target))
    (hf : find fs last (p.descend names) = .ok (l, e)) : l = k ++ names := by
  have hnames : ∀ name ∈ names, IsName name := fun name hname =>
    hwf.isName he name (List.mem_append_right k hname)
  obtain ⟨spot, hres, rfl, -, -⟩ := find_eq_ok_iff.mp hf
  rw [endsWithSlash_descend p hnames hne, Bool.or_false] at hres
  obtain ⟨-, -, rfl⟩ := h.clear_of_resolve hk hnames hne (hwf.clear he).noLinks hlast hres
  rfl

/-- What could be removed behind a path has names and a path that are short enough. -/
theorem fits_of_removeAll (hwf : fs.WellFormed) (hne : names ≠ [])
    (he : fs.lookup (k ++ names) ≠ none) (hroute : Route fs Q p k) (hk : fs.isDirectoryAt k = true)
    (h : removeAll (p.descend names) fs = .ok () fs') : Fits p names := by
  have hclear := hwf.clear he
  have hnames : ∀ name ∈ names, IsName name := fun name hname =>
    hwf.isName he name (List.mem_append_right k hname)
  cases hres : resolve fs false (p.descend names) with
  | error e =>
    have hdescent := hroute.descent hk hnames hne hclear.noLinks (.inl rfl : false = false ∨ _)
    rw [hres] at hdescent
    cases hdescent with
    | missing pre hpre hproper hmissing =>
      exact absurd hmissing (lookup_ne_none (hclear pre hpre hproper))
    | blocked _ hcause _ =>
      rw [removeAll_of_blocked hnames hne hcause hres] at h
      exact absurd h (by simp)
  | ok spot => exact (hroute.clear_of_resolve hk hnames hne hclear.noLinks (.inl rfl) hres).2.1

/-- **What was removed** behind a path that is followed afterwards too. -/
theorem placed_of_removeAll_of_route (hwf : fs.WellFormed) (hne : names ≠ [])
    (he : fs.lookup (k ++ names) ≠ none) (hroute' : Route fs' Q p k)
    (hk' : fs'.isDirectoryAt k = true) (h : removeAll (p.descend names) fs = .ok () fs') :
    Placed (k ++ names) .empty fs fs' := by
  have hshrinks := (leaves_removeAll fs (p.descend names)).ok () fs' h
  have hroute := hroute'.of_guides hshrinks.guides hk'
  have hk := hshrinks.guides.directory k hk'
  have hclear := hwf.clear he
  have hnames : ∀ name ∈ names, IsName name := fun name hname =>
    hwf.isName he name (List.mem_append_right k hname)
  have hfits := fits_of_removeAll hwf hne he hroute hk h
  have hwithout : fs' = fs.without (k ++ names) := by
    rw [removeAll, find_false_descend hroute hk hnames hne hclear hfits] at h
    rw [without]
    cases hlookup : fs.lookup (k ++ names) with
    | none => exact absurd hlookup he
    | some e =>
      rw [hlookup] at h
      cases e with
      | directory mode =>
        -- What is left when the directory has been emptied is enough for the path.
        have hemptied := shrinks_of_removeTree h
        have htree := removeTree_of_route hk hnames hne hclear hfits
          (isDirectoryAt_of_lookup hlookup) (hroute'.of_guides hemptied.guides hk')
        simpa [eq_comm] using htree.symm.trans h
      | file mode content =>
        simp only [FileTask.change,
          removeFile_descend hroute hk hnames hne hclear hfits hlookup rfl] at h
        simpa [eq_comm] using h
      | link target =>
        simp only [FileTask.change,
          removeFile_descend hroute hk hnames hne hclear hfits hlookup rfl] at h
        simpa [eq_comm] using h
  rw [hwithout]
  exact placed_without hwf (by simp [hne])

/-! ## Where something was removed -/

/-- Where a path leads nowhere but to `d`, nothing else is changed. -/
theorem Removal.staysIn {d : Location} (h : Removal fs p fs') (hslash : p.endsWithSlash = false)
    (hd : ∀ fs₁ spot, Shrinks fs fs₁ → resolve fs₁ false p = .ok spot → spot.location = d) :
    StaysIn (d <+: ·) fs fs' := by
  have herase : ∀ fs₁ spot, Shrinks fs fs₁ → resolve fs₁ false p = .ok spot →
      StaysIn (d <+: ·) fs₁ (fs₁.erase spot.location) := by
    intro fs₁ spot hshrinks hres
    rw [hd fs₁ spot hshrinks hres]
    exact staysIn_erase fs₁ d
  have hbelow : ∀ {l mode}, find fs false p = .ok (l, .directory mode) →
      StaysIn (d <+: ·) fs (fs.eraseBelow l) := by
    intro l mode hfind
    obtain ⟨spot, hres, rfl, -⟩ := find_eq_ok_iff.mp hfind
    rw [hslash, Bool.or_false] at hres
    rw [hd fs spot (.refl fs) hres]
    exact staysIn_eraseBelow fs d
  cases h with
  | nothing => exact .refl _ fs
  | entry hres => exact herase fs _ (.refl fs) hres
  | below hfind => exact hbelow hfind
  | tree hfind hres =>
    exact (hbelow hfind).trans (herase _ _ (shrinks_eraseBelow fs _) hres)

/-- Names behind the path of a directory lead to their own location, or nowhere any more. -/
theorem Shrinks.location_of_resolve {mode : Nat} {spot : Spot} (h : Shrinks fs fs')
    (hwf : fs.WellFormed) (hp : find fs true p = .ok (k, .directory mode)) (hne : names ≠ [])
    (he : fs.lookup (k ++ names) ≠ none)
    (hres : resolve fs' false (p.descend names) = .ok spot) : spot.location = k ++ names := by
  have hnames : ∀ name ∈ names, IsName name := fun name hname =>
    hwf.isName he name (List.mem_append_right k hname)
  obtain ⟨k', hk', hroute'⟩ := exists_route_of_resolve_descend (h.wellFormed hwf) hnames hne hres
  obtain ⟨mode', hmode'⟩ := isDirectoryAt_iff.mp (h.guides.directory k' hk')
  have hfind := (hroute'.of_guides h.guides hk').find_directory (usable_of_find hp) hmode'
  obtain ⟨rfl, -⟩ : k = k' ∧ mode = mode' := by simpa [hp] using hfind
  have hlinks : NoLinks fs' k names := fun pre hpre hproper target htarget =>
    (hwf.clear he).noLinks pre hpre hproper target (h.lookup _ _ htarget)
  obtain ⟨-, -, rfl⟩ := hroute'.clear_of_resolve hk' hnames hne hlinks (.inl rfl) hres
  rfl

/-- **A run of removals stays at its paths**, names behind that of a directory, whatever comes of
it. -/
theorem staysIn_of_removeAlls {mode : Nat} {rs : List (List String)} (hwf : fs.WellFormed)
    (hp : find fs true p = .ok (k, .directory mode))
    (hrs : ∀ r ∈ rs, r ≠ [] ∧ fs.lookup (k ++ r) ≠ none) :
    Task.Leaves ((rs.map p.descend).forM fun q => Task.forPath q (removeAll q) : Task Unit) fs
      (StaysIn (fun l => ∃ r ∈ rs, k ++ r <+: l) fs) := by
  have hrun : Task.Leaves
      ((rs.map p.descend).forM fun q => Task.forPath q (removeAll q) : Task Unit) fs
      fun fs' => Shrinks fs fs' ∧ StaysIn (fun l => ∃ r ∈ rs, k ++ r <+: l) fs fs' := by
    refine Task.leaves_forM ⟨.refl fs, .refl _ fs⟩ fun q hq fs₁ ⟨hshrinks, hstays⟩ => ?_
    obtain ⟨r, hr, rfl⟩ := List.mem_map.mp hq
    obtain ⟨hne, he⟩ := hrs r hr
    have hnames : ∀ name ∈ r, IsName name := fun name hname =>
      hwf.isName he name (List.mem_append_right k hname)
    refine Task.leaves_forPath ((removal_of_removeAll fs₁ _).mono fun fs₂ hremoval => ?_)
    refine ⟨hshrinks.trans hremoval.shrinks, hstays.trans ?_⟩
    have hinside := hremoval.staysIn (endsWithSlash_descend p hnames hne)
      fun fs₂ spot h hres => (hshrinks.trans h).location_of_resolve hwf hp hne he hres
    exact hinside.mono fun l hl => ⟨r, hr, hl⟩
  exact hrun.mono fun _ h => h.2

/-! ## A run of removals -/

/-- The locations behind `k` are gone with all below them, and nothing else is different. -/
structure Cleared (k : Location) (rs : List (List String)) (fs fs' : FileSystem) : Prop where
  gone : ∀ r ∈ rs, ∀ l, k ++ r <+: l → fs'.lookup l = none
  changes : ChangesOnly (fun l => ∃ r ∈ rs, k ++ r <+: l) fs fs'

/-- **What is left after a run of removals** behind a path that is still followed, none of them
inside another. -/
theorem cleared_of_removeAlls {rs : List (List String)} (hwf : fs.WellFormed)
    (hrs : ∀ r ∈ rs, r ≠ [] ∧ fs.lookup (k ++ r) ≠ none) (hapart : rs.Pairwise Apart)
    (hroute' : Route fs' Q p k) (hk' : fs'.isDirectoryAt k = true)
    (h : ((rs.map p.descend).forM fun q => Task.forPath q (removeAll q) : Task Unit) fs =
      .ok () fs') : Cleared k rs fs fs' := by
  induction rs generalizing fs with
  | nil =>
    obtain rfl := Task.forM_nil_eq_ok.mp h
    exact ⟨fun r hr => absurd hr (by simp), .refl _ fs⟩
  | cons r rest ih =>
    obtain ⟨hr, hrest⟩ := List.forall_mem_cons.mp hrs
    obtain ⟨hfirst, hpairs⟩ := List.pairwise_cons.mp hapart
    obtain ⟨fs₁, hremove, hrun⟩ := Task.forM_cons_eq_ok.mp h
    have hshrinks := (leaves_removeAlls fs₁ (rest.map p.descend)).ok () fs' hrun
    have hplaced := placed_of_removeAll_of_route hwf hr.1 hr.2
      (hroute'.of_guides hshrinks.guides hk') (hshrinks.guides.directory k hk')
      (Task.forPath_eq_ok.mp hremove)
    have hwf₁ := ((leaves_removeAll fs _).ok () fs₁ (Task.forPath_eq_ok.mp hremove)).wellFormed hwf
    have hstay : ∀ r' ∈ rest, fs₁.lookup (k ++ r') = fs.lookup (k ++ r') := by
      intro r' hr'
      refine hplaced.changes.lookup _ fun hp => (hfirst r' hr').1 ?_
      exact (List.prefix_append_right_inj k).mp hp
    have hafter := ih hwf₁ (fun r' hr' => ⟨(hrest r' hr').1, by rw [hstay r' hr']; exact
      (hrest r' hr').2⟩) hpairs hrun
    refine ⟨fun r' hr' l hl => ?_, ?_⟩
    · rcases List.mem_cons.mp hr' with rfl | hr'
      · obtain ⟨s, rfl⟩ := hl
        exact hshrinks.lookup_eq_none (hplaced.lookup s)
      · exact hafter.gone r' hr' l hl
    · refine (hplaced.changes.mono fun l hl => ?_).trans (hafter.changes.mono fun l hl => ?_)
      · exact ⟨r, List.mem_cons_self, hl⟩
      · obtain ⟨r', hr', hl⟩ := hl
        exact ⟨r', List.mem_cons_of_mem r hr', hl⟩

end PluginManager.FileSystem
