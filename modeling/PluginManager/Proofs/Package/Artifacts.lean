import PluginManager.Package
import PluginManager.Proofs.FileSystem.Shrink
import PluginManager.Proofs.FileSystem.Visits

/-!
# Build artifacts

The walk that looks for artifacts does not go into a directory that is one, so none of the paths it
finds lies inside another.

* `IsDoomed`: an entry below the root that goes by its own name.
* `stripArtifacts_eq_ok`: just these are found, and each once.
* `leaves_stripArtifacts`, `changesOnly_of_stripArtifacts`: whatever comes of it, nothing is put in
  place, and nothing is different outside the root.
* `stripped_of_stripArtifacts`: **they are gone**, and nothing else is different.
* `Stripped.lookup_iff`: which files that leaves.
-/

namespace PluginManager.Package

open FileSystem (Visit Apart StaysIn Enters Route Shrinks)

variable {fs fs' : FileSystem} {k : Location} {root : Path} {dirs files names r : List String}
  {name : String} {e : Entry} {mode : Nat} {v : Visit}

/-! ## Names on the way -/

theorem mem_dropLast_iff {n : String} :
    n ∈ r.dropLast ↔ ∃ pre rest, r = pre ++ n :: rest ∧ rest ≠ [] := by
  constructor
  · intro h
    have hne : r ≠ [] := by
      rintro rfl
      exact absurd h (by simp)
    obtain ⟨pre, rest, heq⟩ := List.append_of_mem h
    refine ⟨pre, rest ++ [r.getLast hne], ?_, by simp⟩
    have hr := List.dropLast_append_getLast hne
    rw [heq, List.append_assoc] at hr
    exact hr.symm
  · rintro ⟨pre, rest, rfl, hrest⟩
    rw [List.dropLast_append_of_ne_nil (by simp), List.dropLast_cons_of_ne_nil hrest]
    simp

/-! ## Going past artifacts -/

theorem entersOutside_iff : entersOutside dirs v = true ↔
    ∀ n, v.parentName? = some n → n ∉ dirs := by
  rw [entersOutside, Bool.or_eq_true, decide_eq_true_eq]
  constructor
  · rintro (hdepth | hparent) n hn
    · rw [Visit.depth] at hdepth
      have hnil : v.names.dropLast = [] := by
        rw [← List.length_eq_zero_iff, List.length_dropLast]
        omega
      rw [Visit.parentName?, hnil] at hn
      exact absurd hn (by simp)
    · simpa [hn] using hparent
  · intro h
    right
    cases hn : v.parentName? with
    | none => rfl
    | some n => simpa using h n hn

theorem lookup_ne_none_of_begins {sub : List String} (hwf : fs.WellFormed)
    (he : fs.lookup (k ++ r) ≠ none) (hsub : sub <+: r) : fs.lookup (k ++ sub) ≠ none := by
  by_cases heq : sub = r
  · rwa [heq]
  · exact FileSystem.lookup_ne_none (hwf.clear he sub hsub heq)

theorem enters_entersOutside_iff (hwf : fs.WellFormed) (he : fs.lookup (k ++ r) ≠ none) :
    Enters fs (entersOutside dirs) k root [] r ↔ ∀ n ∈ r.dropLast, n ∉ dirs := by
  constructor
  · intro h n hn
    obtain ⟨pre, rest, hr, hrest⟩ := mem_dropLast_iff.mp hn
    obtain ⟨next, rest, rfl⟩ := List.exists_cons_of_ne_nil hrest
    obtain ⟨e', -, henter⟩ := h (pre ++ [n, next]) (by rw [hr]; simp) (by simp)
    refine entersOutside_iff.mp henter n ?_
    simp [Visit.parentName?, List.dropLast_append_of_ne_nil]
  · intro h sub hsub _
    obtain ⟨e', he'⟩ := Option.ne_none_iff_exists'.mp (lookup_ne_none_of_begins hwf he hsub)
    refine ⟨e', he', entersOutside_iff.mpr fun n hn => h n ?_⟩
    have hmem : n ∈ sub.dropLast := List.mem_of_getLast? hn
    obtain ⟨pre, rest, rfl, hrest⟩ := mem_dropLast_iff.mp hmem
    obtain ⟨t, rfl⟩ := hsub
    exact mem_dropLast_iff.mpr ⟨pre, rest ++ t, by simp, by simp [hrest]⟩

/-! ## The artifacts -/

/-- The names lead to a directory with a name in `dirs`, or to something else with a name in
`files`, and not through a directory with a name in `dirs`. -/
structure IsDoomed (fs : FileSystem) (k : Location) (dirs files r : List String) : Prop where
  artifact : ∃ e name, fs.lookup (k ++ r) = some e ∧ r.getLast? = some name ∧
    name ∈ if e.isDirectory then dirs else files
  outside : ∀ n ∈ r.dropLast, n ∉ dirs

theorem IsDoomed.ne_nil (h : IsDoomed fs k dirs files r) : r ≠ [] := by
  rintro rfl
  obtain ⟨e, name, -, hname, -⟩ := h.artifact
  exact absurd hname (by simp)

theorem IsDoomed.lookup_ne_none (h : IsDoomed fs k dirs files r) : fs.lookup (k ++ r) ≠ none := by
  obtain ⟨e, name, he, -⟩ := h.artifact
  simp [he]

theorem isArtifact_iff {p : Path} : isArtifact dirs files ⟨p, names ++ [name], e⟩ = true ↔
    name ∈ if e.isDirectory then dirs else files := by
  rw [isArtifact]
  cases he : e.isDirectory <;> simp [Visit.name]

/-- An artifact that something lies in is a directory, and has its name. -/
theorem IsDoomed.exists_mem_dropLast {pre : List String} (hwf : fs.WellFormed)
    (h : IsDoomed fs k dirs files pre) (he : fs.lookup (k ++ r) ≠ none) (hpre : pre <+: r)
    (hne : pre ≠ r) : ∃ n ∈ r.dropLast, n ∈ dirs := by
  obtain ⟨e, name, hentry, hname, hmem⟩ := h.artifact
  rw [FileSystem.isDirectory_of_lookup (hwf.clear he pre hpre hne) hentry, if_pos rfl] at hmem
  obtain ⟨init, rfl⟩ := List.getLast?_eq_some_iff.mp hname
  obtain ⟨rest, rfl⟩ := hpre
  refine ⟨name, mem_dropLast_iff.mpr ⟨init, rest, by simp, ?_⟩, hmem⟩
  rintro rfl
  exact hne (List.append_nil _).symm

/-- None of the artifacts lies inside another. -/
theorem IsDoomed.eq_of_begins {r' : List String} (hwf : fs.WellFormed)
    (h : IsDoomed fs k dirs files r) (h' : IsDoomed fs k dirs files r') (hp : r <+: r') :
    r = r' := by
  by_contra hne
  obtain ⟨n, hn, hdir⟩ := h.exists_mem_dropLast hwf h'.lookup_ne_none hp hne
  exact h'.outside n hn hdir

/-- The artifacts that a walk has found. -/
def doomedNames (dirs files : List String) (visits : List Visit) : List (List String) :=
  (visits.filter (isArtifact dirs files)).map Visit.names

theorem mem_doomedNames (hwf : fs.WellFormed) :
    r ∈ doomedNames dirs files
        (fs.walkBelow .enumeration (entersOutside dirs) fs.height k root []) ↔
      IsDoomed fs k dirs files r := by
  rw [doomedNames, List.mem_map]
  constructor
  · rintro ⟨v, hv, rfl⟩
    obtain ⟨hvisit, hartifact⟩ := List.mem_filter.mp hv
    obtain ⟨r, e, hne, he, rfl, henters⟩ := (FileSystem.mem_walk hwf).mp hvisit
    obtain ⟨init, name, rfl⟩ := List.eq_nil_or_concat r |>.resolve_left hne
    rw [List.concat_eq_append] at *
    exact ⟨⟨e, name, he, List.getLast?_concat, isArtifact_iff.mp hartifact⟩,
      (enters_entersOutside_iff hwf (by simp [he])).mp henters⟩
  · intro h
    obtain ⟨e, name, he, hname, hmem⟩ := h.artifact
    refine ⟨⟨root.descend r, r, e⟩, List.mem_filter.mpr ⟨?_, ?_⟩, rfl⟩
    · exact (FileSystem.mem_walk hwf).mpr ⟨r, e, h.ne_nil, he, rfl,
        (enters_entersOutside_iff hwf h.lookup_ne_none).mpr h.outside⟩
    · obtain ⟨init, rfl⟩ := List.getLast?_eq_some_iff.mp hname
      exact isArtifact_iff.mpr hmem

/-! ## Stripping -/

theorem map_path_doomed (hwf : fs.WellFormed) :
    ((fs.walkBelow .enumeration (entersOutside dirs) fs.height k root []).filter
        (isArtifact dirs files)).map Visit.path =
      (doomedNames dirs files (fs.walkBelow .enumeration (entersOutside dirs) fs.height k root
        [])).map root.descend := by
  rw [doomedNames, List.map_map]
  refine List.map_congr_left fun v hv => ?_
  obtain ⟨r, e, -, -, rfl, -⟩ := (FileSystem.mem_walk hwf).mp (List.mem_of_mem_filter hv)
  rfl

/-- **Just the artifacts are found**, each once, and removed one after the other. -/
theorem stripArtifacts_eq_ok {doomed : List Path} (hwf : fs.WellFormed)
    (hdash : FileSystem.isDash root = false)
    (hroot : fs.find true root = .ok (k, .directory mode))
    (h : stripArtifacts root dirs files fs = .ok doomed fs') :
    ∃ rs : List (List String), doomed = rs.map root.descend ∧ rs.Nodup ∧
      (∀ r, r ∈ rs ↔ IsDoomed fs k dirs files r) ∧
      ((rs.map root.descend).forM fun p => Task.forPath p (FileSystem.removeAll p) : Task Unit) fs =
        .ok () fs' := by
  rw [stripArtifacts, FileSystem.walk_of_find hdash hroot] at h
  simp only at h
  split at h
  · exact absurd h (by simp)
  · rename_i u fs₁ hrun
    obtain ⟨rfl, rfl⟩ : _ = doomed ∧ fs₁ = fs' := by simpa using h
    rw [map_path_doomed hwf] at hrun
    refine ⟨_, map_path_doomed hwf, ?_, fun r => mem_doomedNames hwf, hrun⟩
    exact (FileSystem.nodup_walkBelow hwf _ _ _ _ _ _).sublist (List.filter_sublist.map _)

/-- Whatever comes of it, stripping leaves what its removals leave. -/
theorem leaves_stripArtifacts_of_walk {R : FileSystem → Prop} (h : R fs)
    (hrun : ∀ visits, fs.walk .enumeration (entersOutside dirs) root = .ok visits →
      Task.Leaves (((visits.filter (isArtifact dirs files)).map Visit.path).forM fun p =>
        Task.forPath p (FileSystem.removeAll p) : Task Unit) fs R) :
    Task.Leaves (stripArtifacts root dirs files) fs R := by
  cases hwalk : fs.walk .enumeration (entersOutside dirs) root with
  | error cause =>
    constructor
    · intro doomed fs' hres
      rw [stripArtifacts, hwalk] at hres
      exact absurd hres (by simp)
    · intro e fs' hres
      rw [stripArtifacts, hwalk] at hres
      obtain ⟨-, rfl⟩ : _ = e ∧ fs = fs' := by simpa using hres
      exact h
  | ok visits =>
    constructor
    · intro doomed fs' hres
      rw [stripArtifacts, hwalk] at hres
      simp only at hres
      split at hres
      · exact absurd hres (by simp)
      · rename_i u fs₁ hok
        obtain ⟨-, rfl⟩ : _ ∧ fs₁ = fs' := by simpa using hres
        exact (hrun visits hwalk).ok u fs₁ hok
    · intro e fs' hres
      rw [stripArtifacts, hwalk] at hres
      simp only at hres
      split at hres
      · rename_i cause fs₁ herror
        obtain ⟨-, rfl⟩ : _ ∧ fs₁ = fs' := by simpa using hres
        exact (hrun visits hwalk).error cause fs₁ herror
      · exact absurd hres (by simp)

/-- **Whatever comes of it**, nothing is put in place. -/
theorem leaves_stripArtifacts (fs : FileSystem) (root : Path) (dirs files : List String) :
    Task.Leaves (stripArtifacts root dirs files) fs (Shrinks fs) :=
  leaves_stripArtifacts_of_walk (.refl fs) fun visits _ =>
    FileSystem.leaves_removeAlls fs ((visits.filter (isArtifact dirs files)).map Visit.path)

/-- **Whatever comes of it**, nothing is different but at the artifacts. -/
theorem staysIn_of_stripArtifacts (hwf : fs.WellFormed)
    (hroot : fs.find true root = .ok (k, .directory mode)) :
    Task.Leaves (stripArtifacts root dirs files) fs
      (StaysIn (fun l => ∃ r, IsDoomed fs k dirs files r ∧ k ++ r <+: l) fs) := by
  refine leaves_stripArtifacts_of_walk (.refl _ fs) fun visits hwalk => ?_
  by_cases hdash : FileSystem.isDash root = true
  · rw [FileSystem.walk, if_pos hdash] at hwalk
    obtain rfl := Except.ok.inj hwalk
    exact Task.leaves_forM (.refl _ fs) (by simp)
  · rw [Bool.not_eq_true] at hdash
    obtain rfl := Except.ok.inj ((FileSystem.walk_of_find hdash hroot).symm.trans hwalk)
    rw [map_path_doomed hwf]
    refine (FileSystem.staysIn_of_removeAlls hwf hroot fun r hr => ?_).mono fun fs' h =>
      h.mono fun l hl => ?_
    · have hdoomed := (mem_doomedNames hwf).mp hr
      exact ⟨hdoomed.ne_nil, hdoomed.lookup_ne_none⟩
    · obtain ⟨r, hr, hl⟩ := hl
      exact ⟨r, (mem_doomedNames hwf).mp hr, hl⟩

/-- **Whatever comes of it**, nothing outside the root is different. -/
theorem changesOnly_of_stripArtifacts (hwf : fs.WellFormed)
    (hroot : fs.find true root = .ok (k, .directory mode)) :
    Task.Leaves (stripArtifacts root dirs files) fs fun fs' =>
      FileSystem.ChangesOnly (k <+: ·) fs fs' := by
  refine (staysIn_of_stripArtifacts hwf hroot).mono fun fs' h => h.changes.mono fun l hl => ?_
  obtain ⟨r, -, hl⟩ := hl
  exact (List.prefix_append k r).trans hl

/-- The artifacts are gone, and that is all that is different. -/
structure Stripped (fs : FileSystem) (k : Location) (dirs files : List String) (fs' : FileSystem) :
    Prop where
  gone : ∀ r, IsDoomed fs k dirs files r → ∀ l, k ++ r <+: l → fs'.lookup l = none
  changes : FileSystem.ChangesOnly (fun l => ∃ r, IsDoomed fs k dirs files r ∧ k ++ r <+: l) fs fs'

/-- **What stripping leaves**, unless it took away what leads to the root. -/
theorem stripped_of_stripArtifacts {Q : Location → Prop} {doomed : List Path} (hwf : fs.WellFormed)
    (hdash : FileSystem.isDash root = false)
    (hroot : fs.find true root = .ok (k, .directory mode))
    (h : stripArtifacts root dirs files fs = .ok doomed fs')
    (hroute : Route fs' Q root k) (hk : fs'.isDirectoryAt k = true) :
    Stripped fs k dirs files fs' := by
  obtain ⟨rs, -, hnodup, hmem, hrun⟩ := stripArtifacts_eq_ok hwf hdash hroot h
  have hapart : rs.Pairwise FileSystem.Apart := by
    refine hnodup.pairwise_of_forall_ne fun r hr r' hr' hne => ⟨fun hp => ?_, fun hp => ?_⟩
    · exact hne (((hmem r).mp hr).eq_of_begins hwf ((hmem r').mp hr') hp)
    · exact hne (((hmem r').mp hr').eq_of_begins hwf ((hmem r).mp hr) hp).symm
  have hcleared := FileSystem.cleared_of_removeAlls hwf
    (fun r hr => ⟨((hmem r).mp hr).ne_nil, ((hmem r).mp hr).lookup_ne_none⟩) hapart hroute hk hrun
  refine ⟨fun r hr => hcleared.gone r ((hmem r).mpr hr), hcleared.changes.mono fun l hl => ?_⟩
  obtain ⟨r, hr, hl⟩ := hl
  exact ⟨r, (hmem r).mp hr, hl⟩

/-! ## What is left -/

/-- The outermost directory on the way that is an artifact. -/
theorem exists_isDoomed_of_mem_dropLast (files : List String) (hwf : fs.WellFormed)
    (he : fs.lookup (k ++ r) ≠ none) {n : String} (hn : n ∈ r.dropLast) (hdir : n ∈ dirs) :
    ∃ pre, pre <+: r ∧ IsDoomed fs k dirs files pre := by
  obtain ⟨m, hm⟩ := Option.isSome_iff_exists.mp
    (List.find?_isSome.mpr ⟨n, hn, by simpa using hdir⟩ :
      (r.dropLast.find? fun x => dirs.contains x).isSome = true)
  obtain ⟨hmdir, before, after, heq, hbefore⟩ := List.find?_eq_some_iff_append.mp hm
  have hproper : before ++ [m] <+: r.dropLast := ⟨after, by rw [heq, List.append_assoc]; rfl⟩
  have hpre : before ++ [m] <+: r := hproper.trans (List.dropLast_prefix r)
  have hne : before ++ [m] ≠ r := by
    intro h
    have hlength := hproper.length_le
    rw [h, List.length_dropLast] at hlength
    have hpos : 0 < r.length := by
      rw [← h]
      simp
    omega
  obtain ⟨mode, hmode⟩ := FileSystem.isDirectoryAt_iff.mp (hwf.clear he _ hpre hne)
  refine ⟨before ++ [m], hpre,
    ⟨_, m, hmode, List.getLast?_concat, by simpa [Entry.isDirectory] using hmdir⟩, ?_⟩
  rw [List.dropLast_concat]
  intro x hx
  simpa using hbefore x hx

/-- **Which files are left**: those with no artifact on the way that have no name of one. -/
theorem Stripped.lookup_iff (h : Stripped fs k dirs files fs') (hwf : fs.WellFormed)
    (he : fs.lookup (k ++ r) = some e) (hd : e.isDirectory = false) :
    fs'.lookup (k ++ r) = some e ↔
      (∀ n ∈ r.dropLast, n ∉ dirs) ∧ ∀ n, r.getLast? = some n → n ∉ files := by
  constructor
  · intro hleft
    have hdirs : ∀ n ∈ r.dropLast, n ∉ dirs := by
      intro n hn hdir
      obtain ⟨pre, hpre, hdoomed⟩ :=
        exists_isDoomed_of_mem_dropLast files hwf (by rw [he]; simp) hn hdir
      rw [h.gone pre hdoomed _ ((List.prefix_append_right_inj k).mpr hpre)] at hleft
      exact absurd hleft (by simp)
    refine ⟨hdirs, fun n hn hfile => ?_⟩
    have hdoomed : IsDoomed fs k dirs files r :=
      ⟨⟨e, n, he, hn, by simpa [hd] using hfile⟩, hdirs⟩
    rw [h.gone r hdoomed _ (List.prefix_refl _)] at hleft
    exact absurd hleft (by simp)
  · rintro ⟨hdirs, hfiles⟩
    rw [h.changes.lookup _ ?_, he]
    rintro ⟨pre, hdoomed, hpre⟩
    replace hpre := (List.prefix_append_right_inj k).mp hpre
    obtain ⟨e', name, he', hname, hmem⟩ := hdoomed.artifact
    by_cases heq : pre = r
    · subst heq
      obtain rfl := Option.some.inj (he.symm.trans he')
      rw [hd] at hmem
      exact hfiles name hname (by simpa using hmem)
    · obtain ⟨n, hn, hdir⟩ := hdoomed.exists_mem_dropLast hwf (by rw [he]; simp) hpre heq
      exact hdirs n hn hdir

end PluginManager.Package
