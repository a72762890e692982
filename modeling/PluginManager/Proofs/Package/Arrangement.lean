import Mathlib.Data.List.Perm.Basic
import PluginManager.Proofs.FileSystem.SortedWalk
import PluginManager.Proofs.Package.Frame
import PluginManager.Proofs.Package.Independence

/-!
# The order of the members

The members of an archive come in the order of the walk.  How directories are enumerated, and
whether they are sorted, makes a difference to that order only.

* `Member.way`: the names on the way to a member, as bytes.
* `Archive.pairwise_way`: **sorted members come in the order of their ways**.
* `exists_copies_of_package`: the members are copies of the files that belong into the archive.
* `pairwise_way_of_package`: so do those of every plugin.
* `perm_of_copies`: copies of the same files are the same up to their order.
* `exists_package_of_sameEntries`: **packaging the same entries** succeeds in whatever order they
  are listed, and the members are the same up to their order.
-/

namespace PluginManager

open FileSystem (Apart Enters Route SameEntries Shrinks Visit)

variable {fs fs' s s' t t' : FileSystem} {k l out : Location} {root : Path} {archive : String}
  {order order' : FileSystem.Order} {members : List Member} {m m' : Member} {mode : Nat}
  {r : List String} {e : Entry}

/-- The names on the way to a member, as bytes. -/
def Member.way (m : Member) : List Bytes := (Path.mk m.name).pieces.map Text.encode

/-! ## The order of the walk -/

namespace Archive

/-- **Sorted members come in the order of their ways**, and no two of them have one way. -/
theorem pairwise_way (hwf : (fs.setContent out mode []).WellFormed)
    (h : Gathered fs root archive .sorted k out mode members fs') :
    (members.map Member.way).Pairwise (· < ·) := by
  obtain ⟨ms, hgather, htakes⟩ := exists_gather (fs.setContent out mode []) out (some archive) []
    ((fs.setContent out mode []).walkBelow .sorted enters (fs.setContent out mode []).height k root
      [])
  rw [List.nil_append] at hgather
  have hmembers : members = ms := h.gathered.trans hgather
  generalize hvisits : (fs.setContent out mode []).walkBelow .sorted enters
    (fs.setContent out mode []).height k root [] = visits at htakes
  have hpieces : ∀ v ∈ visits, (Path.mk (memberName v.names)).pieces = v.names := by
    intro v hv
    rw [← hvisits] at hv
    obtain ⟨r, e, hne, he, rfl, -⟩ := (FileSystem.mem_walk hwf).mp hv
    refine Path.pieces_intercalate (fun n hn => ?_) hne
    exact hwf.isName (by simp [he]) n (List.mem_append_right k hn)
  have hways : members.map Member.way =
      (visits.filter (isMember (fs.setContent out mode []) (some archive))).map
        fun v => v.names.map Text.encode := by
    rw [hmembers, ← List.forall₂_eq_eq_eq, List.forall₂_map_left_iff, List.forall₂_map_right_iff]
    refine ((List.forall₂_and_left _ _).mpr ⟨fun v hv => hpieces v (List.mem_of_mem_filter hv),
      htakes⟩).flip.imp fun m v hm => ?_
    rw [Member.way, hm.2.name, hm.1]
  rw [hways, List.pairwise_map]
  have hsorted := FileSystem.pairwise_walkBelow hwf enters (fs.setContent out mode []).height k
    root []
  rw [hvisits] at hsorted
  exact (hsorted.filter _).imp fun h => Text.map_encode_lt h

/-! ## Making an archive again -/

theorem createArchive_eq_ok_iff {p : Path} : createArchive root p order fs = .ok members fs' ↔
    ∃ out existing visits, fs.writable p = .ok (out, existing) ∧
      (fs.setContent out (existing.getD FileSystem.newFileMode) []).walk order enters root =
        .ok visits ∧
      members = gather (fs.setContent out (existing.getD FileSystem.newFileMode) []) out
        p.fileName? [] visits ∧
      fs' = (fs.setContent out (existing.getD FileSystem.newFileMode) []).setContent out
        (existing.getD FileSystem.newFileMode) (encode members) := by
  rw [createArchive]
  constructor
  · intro h
    split at h
    · exact absurd h (by simp)
    · rename_i out existing hwritable
      simp only at h
      split at h
      · exact absurd h (by simp)
      · rename_i visits hwalk
        obtain ⟨rfl, rfl⟩ : _ = members ∧ _ = fs' := by simpa using h
        exact ⟨out, existing, visits, hwritable, hwalk, rfl, rfl⟩
  · rintro ⟨out, existing, visits, hwritable, hwalk, rfl, rfl⟩
    simp only [hwritable, hwalk]

/-- Whether a walk can be made does not depend on its order. -/
theorem exists_walk_of_sameEntries {enter : Visit → Bool} {visits : List Visit}
    (order' : FileSystem.Order) (h : SameEntries fs fs')
    (hwalk : fs.walk order enter root = .ok visits) :
    ∃ visits', fs'.walk order' enter root = .ok visits' := by
  by_cases hdash : FileSystem.isDash root = true
  · exact ⟨[], by rw [FileSystem.walk, if_pos hdash]⟩
  · rw [FileSystem.walk, if_neg hdash] at hwalk ⊢
    simp only [h.find_eq]
    split at hwalk
    · exact absurd hwalk (by simp)
    · exact ⟨[], rfl⟩
    · exact ⟨_, rfl⟩
    · split at hwalk
      · exact absurd hwalk (by simp)
      · exact ⟨_, rfl⟩
      · exact ⟨[], rfl⟩

/-- **An archive can be made of the same entries**, whatever the order. -/
theorem exists_createArchive_of_sameEntries {p : Path} (order' : FileSystem.Order)
    (hwf : fs.WellFormed) (h : SameEntries fs fs')
    (hcreate : createArchive root p order fs = .ok members t) :
    ∃ members' t', createArchive root p order' fs' = .ok members' t' ∧
      (members' = members → SameEntries t t') := by
  obtain ⟨out, existing, visits, hwritable, hwalk, rfl, rfl⟩ := createArchive_eq_ok_iff.mp hcreate
  have hne := (FileSystem.exists_of_writable hwf hwritable).1.ne_nil
  have hstarted := h.setContent hne (existing.getD FileSystem.newFileMode) []
  obtain ⟨visits', hwalk'⟩ := exists_walk_of_sameEntries order' hstarted hwalk
  refine ⟨_, _, createArchive_eq_ok_iff.mpr
    ⟨out, existing, visits', by rw [h.writable_eq, hwritable], hwalk', rfl, rfl⟩, fun heq => ?_⟩
  rw [heq]
  exact hstarted.setContent hne _ _

end Archive

/-! ## The same entries, packaged -/

namespace Package

variable {options : PackageOptions} {manifest : Manifest} {packed packed' : Packed}
  {dirs files : List String} {paths paths' : List (List String)}

/-- **The members are copies of the files that belong into the archive.** -/
theorem exists_copies_of_package (hwf : fs.WellFormed) (hdash : FileSystem.isDash root = false)
    (hm : Manifest.read fs root = .ok manifest) (hroot : fs.find true root = .ok (k, e))
    (hplace : Unclaimed fs k root (archiveName manifest.name options))
    (h : package root options fs = .ok packed t) :
    ∃ paths : List (List String), paths.Nodup ∧
      (∀ r, r ∈ paths ↔ Belongs fs k root options (archiveName manifest.name options) r) ∧
      List.Forall₂ (IsCopy (stripped root options fs) root) paths packed.members := by
  obtain ⟨hstrip, -, out, mode, paths, hcreated⟩ :=
    exists_created_of_package hwf hdash hm hroot h
  obtain rfl := out_eq_of_created hcreated hplace.free
  have hstarted := started_of_created hwf hcreated
  refine ⟨paths, hcreated.nodup,
    fun r => (hcreated.mem_paths r).trans (hstarted.isPacked_iff hplace hwf hstrip), ?_⟩
  refine ((List.forall₂_and_left _ _).mpr ⟨fun r hr => hr, hcreated.takes⟩).imp
    fun r m ⟨hr, htakes⟩ => ?_
  exact hstarted.isCopy hplace ((hcreated.mem_paths r).mp hr) htakes

/-- Of one path only one copy is made. -/
theorem IsCopy.eq (h : IsCopy fs root r m) (h' : IsCopy fs root r m') : m' = m := by
  obtain ⟨l, mode, hfind, hmode⟩ := h.file
  obtain ⟨l', mode', hfind', hmode'⟩ := h'.file
  have hfile := (Prod.mk.inj (Except.ok.inj (hfind.symm.trans hfind'))).2
  obtain ⟨rfl, hcontent⟩ := Entry.file.inj hfile
  cases m with
  | mk name mode content =>
    cases m' with
    | mk name' mode' content' =>
      have hname := h.name
      have hname' := h'.name
      simp only at hname hname' hmode hmode' hcontent
      rw [hname, hname', hmode, hmode', hcontent]

theorem IsCopy.of_find_eq (h : IsCopy fs root r m)
    (hfind : ∀ l mode content, fs.find true (root.descend r) = .ok (l, .file mode content) →
      fs'.find true (root.descend r) = .ok (l, .file mode content)) : IsCopy fs' root r m := by
  obtain ⟨l, mode, hfile, hmode⟩ := h.file
  exact ⟨h.name, h.pieces, h.isName, l, mode, hfind _ _ _ hfile, hmode⟩

/-- **Copies of the same files** are the same up to their order. -/
theorem perm_of_copies {members' : List Member} (hpaths : paths'.Perm paths)
    (h : List.Forall₂ (IsCopy fs root) paths members)
    (h' : List.Forall₂ (IsCopy fs root) paths' members') : members'.Perm members := by
  obtain ⟨ms, hms, hperm⟩ := List.perm_comp_forall₂ hpaths h
  have hunique : Relator.RightUnique (IsCopy fs root) := fun r m m' hm hm' => hm'.eq hm
  rwa [hunique.forall₂ h' hms]

/-! ### Stripping -/

theorem exists_stripArtifacts_of_removeAlls (hwf : fs.WellFormed)
    (hdash : FileSystem.isDash root = false) (hroot : fs.find true root = .ok (k, .directory mode))
    (h : (((doomedNames dirs files (fs.walkBelow .enumeration (entersOutside dirs) fs.height k root
      [])).map root.descend).forM fun p => Task.forPath p (FileSystem.removeAll p) : Task Unit) fs =
        .ok () s) : ∃ doomed, stripArtifacts root dirs files fs = .ok doomed s := by
  refine ⟨(doomedNames dirs files (fs.walkBelow .enumeration (entersOutside dirs) fs.height k root
    [])).map root.descend, ?_⟩
  rw [stripArtifacts, FileSystem.walk_of_find hdash hroot]
  simp only [map_path_doomed hwf, h]

/-- **Artifacts can be stripped from the same entries** too, and the same is left. -/
theorem exists_stripArtifacts_of_sameEntries {Q : Location → Prop} {doomed : List Path}
    (hwf : fs.WellFormed) (hwf' : fs'.WellFormed) (h : SameEntries fs fs')
    (hdash : FileSystem.isDash root = false) (hroot : fs.find true root = .ok (k, .directory mode))
    (hstrip : stripArtifacts root dirs files fs = .ok doomed s) (hroute : Route s Q root k)
    (hk : s.isDirectoryAt k = true) :
    ∃ doomed' s', stripArtifacts root dirs files fs' = .ok doomed' s' ∧ SameEntries s s' := by
  obtain ⟨rs, -, hnodup, hmem, hrun⟩ := stripArtifacts_eq_ok hwf hdash hroot hstrip
  have hapart : rs.Pairwise Apart := by
    refine hnodup.pairwise_of_forall_ne fun r hr r' hr' hne => ⟨fun hp => ?_, fun hp => ?_⟩
    · exact hne (((hmem r).mp hr).eq_of_begins hwf ((hmem r').mp hr') hp)
    · exact hne (((hmem r').mp hr').eq_of_begins hwf ((hmem r).mp hr) hp).symm
  have hperm : (doomedNames dirs files (fs'.walkBelow .enumeration (entersOutside dirs) fs'.height
      k root [])).Perm rs := by
    refine (List.perm_ext_iff_of_nodup ?_ hnodup).mpr fun r => ?_
    · exact (FileSystem.nodup_walkBelow hwf' _ _ _ _ _ _).sublist (List.filter_sublist.map _)
    · rw [mem_doomedNames hwf', hmem, isDoomed_congr (h.sameBelow k)]
  obtain ⟨s', hrun', hs⟩ := FileSystem.exists_removeAlls_of_perm hwf hwf' h
    (fun r hr => ⟨((hmem r).mp hr).ne_nil, ((hmem r).mp hr).lookup_ne_none⟩) hapart hperm hroute hk
    hrun
  obtain ⟨doomed', hstrip'⟩ :=
    exists_stripArtifacts_of_removeAlls hwf' hdash (by rw [h.find_eq, hroot]) hrun'
  exact ⟨doomed', s', hstrip', hs⟩

/-- What was stripped on the way to an archive is stripped from the same entries too. -/
theorem exists_stripped_of_sameEntries (hwf : fs.WellFormed) (hwf' : fs'.WellFormed)
    (h : SameEntries fs fs') (hpackage : package root options fs = .ok packed t) :
    (options.strip = true → ∃ doomed, stripArtifacts root options.stripDirs options.stripFiles fs' =
      .ok doomed (stripped root options fs')) ∧
    SameEntries (stripped root options fs) (stripped root options fs') := by
  obtain ⟨manifest, hm, -, hstrip, -⟩ := package_eq_ok hpackage
  obtain ⟨k, mode, hroot⟩ := exists_root_of_read hwf hm
  by_cases hdash : FileSystem.isDash root = true
  · rw [stripped_of_isDash hdash, stripped_of_isDash hdash]
    refine ⟨fun _ => ⟨[], ?_⟩, h⟩
    rw [stripArtifacts, FileSystem.walk, if_pos hdash]
    rfl
  · rw [Bool.not_eq_true] at hdash
    cases hs : options.strip with
    | false =>
      rw [stripped_of_not_strip hs, stripped_of_not_strip hs]
      exact ⟨fun hno => absurd hno (by decide), h⟩
    | true =>
      obtain ⟨-, -, out, fileMode, paths, hcreated⟩ :=
        exists_created_of_package hwf hdash hm hroot hpackage
      obtain ⟨doomed, hdoomed⟩ := hstrip hs
      obtain ⟨doomed', s', hstrip', hsame⟩ := exists_stripArtifacts_of_sameEntries hwf hwf' h hdash
        hroot hdoomed hcreated.route hcreated.directory
      rw [stripped_of_strip hs hstrip']
      exact ⟨fun _ => ⟨doomed', hstrip'⟩, hsame⟩

/-! ### Packaging -/

/-- **How packaging succeeds.** -/
theorem package_of_createArchive (hm : Manifest.read fs root = .ok manifest)
    (hone : isOneComponent (archiveName manifest.name options) = true)
    (hstrip : options.strip = true → ∃ doomed,
      stripArtifacts root options.stripDirs options.stripFiles fs =
        .ok doomed (stripped root options fs))
    (hcreate : Archive.createArchive root (root.child (archiveName manifest.name options))
      (Package.order options) (stripped root options fs) = .ok members t) :
    package root options fs = .ok ⟨root.child (archiveName manifest.name options), members⟩ t := by
  have hpack : pack root (root.child (archiveName manifest.name options)) options
      (stripped root options fs) =
        .ok ⟨root.child (archiveName manifest.name options), members⟩ t :=
    Task.bind_eq_ok.mpr ⟨members, t, hcreate, rfl⟩
  rw [package_eq, hm]
  simp only [hone, if_true]
  split
  · rename_i hs
    obtain ⟨doomed, hdoomed⟩ := hstrip hs
    exact Task.bind_eq_ok.mpr ⟨doomed, _, hdoomed, hpack⟩
  · rename_i hs
    rwa [stripped_of_not_strip (by simpa using hs)] at hpack

/-- **Sorted members** come in the order of their ways, whatever the root. -/
theorem pairwise_way_of_package (hwf : fs.WellFormed) (hsorted : options.sorted = true)
    (h : package root options fs = .ok packed t) :
    (packed.members.map Member.way).Pairwise (· < ·) := by
  obtain ⟨manifest, hm, hone, -, hpath, hcreate⟩ := package_eq_ok h
  obtain ⟨k, kmode, hroot⟩ := exists_root_of_read hwf hm
  rw [hpath] at hcreate
  by_cases hdash : FileSystem.isDash root = true
  · rw [Archive.createArchive_of_isDash hdash hcreate]
    exact List.Pairwise.nil
  · rw [Bool.not_eq_true] at hdash
    have hwf' := (shrinks_stripped fs root options).wellFormed hwf
    obtain ⟨k', out, mode, hgathered⟩ := Archive.exists_gathered_of_createArchive hwf' hdash
      (FileSystem.usable_of_find hroot) hone hcreate
    rw [show Package.order options = .sorted from if_pos hsorted] at hgathered
    obtain ⟨existing, hwritable, -⟩ := hgathered.writable
    obtain ⟨hplace, hfree⟩ := FileSystem.exists_of_writable hwf' hwritable
    exact Archive.pairwise_way (FileSystem.wellFormed_setContent hplace hfree hwf' mode [])
      hgathered

/-- Members that come in order are the same where they are the same up to their order. -/
theorem eq_of_perm_of_pairwise {members' : List Member} (hperm : members'.Perm members)
    (h : (members.map Member.way).Pairwise (· < ·))
    (h' : (members'.map Member.way).Pairwise (· < ·)) : members' = members :=
  List.Perm.eq_of_pairwise (fun _ _ _ _ hlt hlt' => absurd hlt' (List.lt_asymm hlt))
    (List.pairwise_map.mp h') (List.pairwise_map.mp h) hperm

theorem belongs_congr (h : SameEntries fs fs')
    (hs : SameEntries (stripped root options fs) (stripped root options fs')) (sorted : Bool) :
    Belongs fs' k root { options with sorted } archive r ↔ Belongs fs k root options archive r := by
  have hfile : (stripped root { options with sorted } fs').isFile (root.descend r) =
      (stripped root options fs).isFile (root.descend r) := by
    rw [FileSystem.isFile, FileSystem.isFile, ← hs.find_eq]
    rfl
  constructor
  · rintro ⟨⟨e, he, hd⟩, hne, hgit, hdirs, hfiles, hleft⟩
    exact ⟨⟨e, by rw [← h.lookup, he], hd⟩, hne, hgit, hdirs, hfiles, by rw [← hfile, hleft]⟩
  · rintro ⟨⟨e, he, hd⟩, hne, hgit, hdirs, hfiles, hleft⟩
    exact ⟨⟨e, by rw [h.lookup, he], hd⟩, hne, hgit, hdirs, hfiles, by rw [hfile, hleft]⟩

theorem Unclaimed.of_sameEntries (h : Unclaimed fs k root archive) (hsame : SameEntries fs fs') :
    Unclaimed fs' k root archive := by
  refine ⟨fun e he => h.free e (by rw [← hsame.lookup, he]), fun r target spot he hres => ?_⟩
  exact h.unlinked r target spot (by rw [← hsame.lookup, he]) (by rw [← hsame.resolve_eq, hres])

theorem read_of_sameEntries (h : SameEntries fs fs') (hm : Manifest.read fs root = .ok manifest) :
    Manifest.read fs' root = .ok manifest := by
  have hagain : ∀ p, fs.FindsAgain fs' p := fun p x hx => by rw [h.find_eq, hx]
  exact Manifest.read_congr hm (hagain _) (hagain _) fun _ _ _ c _ => hagain _

/-- **Packaging the same entries** succeeds in whatever order they are listed, sorted or not, and
the members are the same up to their order. -/
theorem exists_package_of_sameEntries (hwf : fs.WellFormed) (hwf' : fs'.WellFormed)
    (h : SameEntries fs fs') (hm : Manifest.read fs root = .ok manifest)
    (hroot : fs.find true root = .ok (k, e))
    (hplace : Unclaimed fs k root (archiveName manifest.name options))
    (hpackage : package root options fs = .ok packed t) (sorted : Bool) :
    ∃ packed' t', package root { options with sorted } fs' = .ok packed' t' ∧
      packed'.path = packed.path ∧ packed'.members.Perm packed.members ∧
      (packed'.members = packed.members → SameEntries t t') := by
  obtain ⟨manifest', hm', hone, -, hpath, hcreate⟩ := package_eq_ok hpackage
  obtain rfl := Except.ok.inj (hm.symm.trans hm')
  obtain ⟨hstrip, hsame⟩ := exists_stripped_of_sameEntries hwf hwf' h hpackage
  obtain ⟨members', t', hcreate', ht⟩ := Archive.exists_createArchive_of_sameEntries
    (Package.order { options with sorted }) ((shrinks_stripped fs root options).wellFormed hwf)
    hsame hcreate
  rw [hpath] at hcreate'
  have hagain : package root { options with sorted } fs' =
      .ok ⟨root.child (archiveName manifest.name options), members'⟩ t' :=
    package_of_createArchive (read_of_sameEntries h hm) hone hstrip hcreate'
  refine ⟨_, t', hagain, hpath.symm, ?_, ht⟩
  by_cases hdash : FileSystem.isDash root = true
  · rw [hpath] at hcreate
    rw [Archive.createArchive_of_isDash hdash hcreate,
      Archive.createArchive_of_isDash hdash hcreate']
  · rw [Bool.not_eq_true] at hdash
    have hroot' : fs'.find true root = .ok (k, e) := by rw [h.find_eq, hroot]
    have hplace' : Unclaimed fs' k root (archiveName manifest.name { options with sorted }) :=
      hplace.of_sameEntries h
    obtain ⟨paths, hnodup, hmem, hcopies⟩ :=
      exists_copies_of_package hwf hdash hm hroot hplace hpackage
    obtain ⟨paths', hnodup', hmem', hcopies'⟩ := exists_copies_of_package hwf' hdash
      (read_of_sameEntries h hm) hroot' hplace' hagain
    refine perm_of_copies ((List.perm_ext_iff_of_nodup hnodup' hnodup).mpr fun r => ?_) hcopies ?_
    · rw [hmem, hmem']
      exact belongs_congr h hsame sorted
    · refine hcopies'.imp fun r m hm => hm.of_find_eq fun l mode content hfind => ?_
      rw [← hsame.find_eq]
      exact hfind

end Package

end PluginManager
