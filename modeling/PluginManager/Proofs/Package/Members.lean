import Mathlib.Data.List.Forall2
import PluginManager.Proofs.Package.ArchiveName
import PluginManager.Proofs.Package.Artifacts

/-!
# Members of an archive

What is met on the walk becomes a member when it leads to a regular file, in the order of the walk.

* `Takes`: the member that is made of a path.  `exists_gather`: each path makes one.
* `IsPacked`: the paths that are met and lead to a regular file.  `mem_memberNames`: just these.
* `Gathered`: how an archive is made.
* `Created`: all there is to say of an archive that was made.  `exists_created_of_createArchive`:
  **every archive was made so**.
* `package_eq_ok`: packaging makes an archive of what stripping leaves.
-/

namespace PluginManager

theorem FileSystem.isFile_iff {fs : FileSystem} {p : Path} : fs.isFile p = true ↔
    ∃ k mode content, fs.find true p = .ok (k, .file mode content) := by
  rw [isFile]
  cases fs.find true p with
  | error e => simp
  | ok x =>
    obtain ⟨k, e⟩ := x
    cases e <;> simp [Entry.isFile]

namespace Archive

open FileSystem (Visit Enters IsPlace Route Usable)

variable {fs fs' : FileSystem} {k out : Location} {root p : Path} {archive : String}
  {outName : Option String} {names r : List String} {members done : List Member} {m : Member}
  {v : Visit} {visits : List Visit} {order : FileSystem.Order}

/-! ## Members and paths -/

/-- What is met leads to a regular file and is not the archive. -/
def isMember (fs : FileSystem) (outName : Option String) (v : Visit) : Bool :=
  !v.entry.isDirectory && !isArchiveItself outName v && fs.isFile v.path

/-- The member has the name, and the mode and the content of the file the path leads to.  Of the
archive at `out` itself it has what was there at that moment. -/
structure Takes (fs : FileSystem) (out : Location) (p : Path) (names : List String) (m : Member) :
    Prop where
  name : m.name = memberName names
  file : ∃ k mode content, fs.find true p = .ok (k, .file mode content) ∧
    m.mode = fileType + mode % 0o1000 ∧ (k ≠ out → m.content = content)

theorem member?_of_not_isMember (h : isMember fs outName v = false) :
    member? fs out outName done v = none := by
  rw [member?]
  split
  · rfl
  · rename_i hskip
    rw [Bool.or_eq_true, not_or, Bool.not_eq_true, Bool.not_eq_true] at hskip
    rw [isMember, hskip.1, hskip.2, Bool.not_false, Bool.true_and, Bool.true_and] at h
    split
    · rename_i k mode content hfind
      rw [FileSystem.isFile_iff.mpr ⟨k, mode, content, hfind⟩] at h
      exact absurd h (by decide)
    · rfl

theorem exists_member?_of_isMember (out : Location) (done : List Member)
    (h : isMember fs outName v = true) :
    ∃ m, member? fs out outName done v = some m ∧ Takes fs out v.path v.names m := by
  rw [isMember, Bool.and_eq_true, Bool.and_eq_true, Bool.not_eq_true', Bool.not_eq_true'] at h
  obtain ⟨⟨hd, hself⟩, hfile⟩ := h
  obtain ⟨k, mode, content, hfind⟩ := FileSystem.isFile_iff.mp hfile
  refine ⟨⟨memberName v.names, fileType + mode % 0o1000,
    if k = out then encodeOpen done (memberName v.names) else content⟩, ?_, rfl,
    k, mode, content, hfind, rfl, fun hk => if_neg hk⟩
  rw [member?, hd, hself]
  simp only [Bool.or_self, Bool.false_eq_true, if_false, hfind]

/-- **Each of them makes a member**, in order. -/
theorem exists_gather (fs : FileSystem) (out : Location) (outName : Option String)
    (done : List Member) (visits : List Visit) :
    ∃ ms, gather fs out outName done visits = done ++ ms ∧
      List.Forall₂ (fun v m => Takes fs out v.path v.names m)
        (visits.filter (isMember fs outName)) ms := by
  induction visits generalizing done with
  | nil => exact ⟨[], by rw [gather, List.append_nil], .nil⟩
  | cons v rest ih =>
    cases h : isMember fs outName v with
    | false =>
      obtain ⟨ms, hms, htakes⟩ := ih done
      refine ⟨ms, ?_, by rwa [List.filter_cons_of_neg (by simp [h])]⟩
      rw [gather, member?_of_not_isMember h, hms]
    | true =>
      obtain ⟨m, hm, hmtakes⟩ := exists_member?_of_isMember out done h
      obtain ⟨ms, hms, htakes⟩ := ih (done ++ [m])
      refine ⟨m :: ms, ?_, ?_⟩
      · rw [gather, hm]
        simp only [hms, List.append_assoc, List.singleton_append]
      · rw [List.filter_cons_of_pos h]
        exact .cons hmtakes htakes

/-! ## What is met -/

/-- The names lead to something other than a directory that leads to a regular file, past no
directory named `.git`, and it is not the archive at the root. -/
structure IsPacked (fs : FileSystem) (k : Location) (root : Path) (archive : String)
    (r : List String) : Prop where
  entry : ∃ e, fs.lookup (k ++ r) = some e ∧ e.isDirectory = false
  ne_archive : r ≠ [archive]
  outside_git : ".git" ∉ r.dropLast
  isFile : fs.isFile (root.descend r) = true

theorem enters_iff {e : Entry} (hwf : fs.WellFormed) (he : fs.lookup (k ++ r) = some e)
    (hd : e.isDirectory = false) : Enters fs enters k root [] r ↔ ".git" ∉ r.dropLast := by
  have hne : fs.lookup (k ++ r) ≠ none := by simp [he]
  constructor
  · intro h hgit
    obtain ⟨pre, rest, rfl, hrest⟩ := Package.mem_dropLast_iff.mp hgit
    have hpre : pre ++ [".git"] <+: pre ++ ".git" :: rest := ⟨rest, by simp⟩
    obtain ⟨e', he', henter⟩ := h _ hpre (by simp)
    have hd' := hwf.clear hne _ hpre (by simpa using Ne.symm hrest)
    rw [enters, FileSystem.isDirectory_of_lookup hd' he'] at henter
    exact absurd henter (by simp [Visit.name])
  · intro h sub hsub hsubne
    obtain ⟨e', he'⟩ := Option.ne_none_iff_exists'.mp
      (Package.lookup_ne_none_of_begins hwf hne hsub)
    refine ⟨e', he', ?_⟩
    rw [enters, Bool.not_eq_true', Bool.and_eq_false_iff, decide_eq_false_iff_not]
    by_cases heq : sub = r
    · subst heq
      obtain rfl := Option.some.inj (he.symm.trans he')
      exact .inl hd
    · right
      intro hname
      obtain ⟨init, last, rfl⟩ := List.eq_nil_or_concat sub |>.resolve_left hsubne
      rw [List.concat_eq_append] at hname hsub heq
      obtain rfl : last = ".git" := by simpa [Visit.name] using hname
      obtain ⟨rest, rfl⟩ := hsub
      refine h (Package.mem_dropLast_iff.mpr ⟨init, rest, by simp, ?_⟩)
      rintro rfl
      exact heq (List.append_nil _).symm

theorem isArchiveItself_iff {e : Entry} :
    isArchiveItself (some archive) ⟨p, r, e⟩ = true ↔ r = [archive] := by
  rw [isArchiveItself, Bool.and_eq_true, decide_eq_true_eq, decide_eq_true_eq, Visit.depth]
  constructor
  · rintro ⟨hlength, hname⟩
    obtain ⟨name, rfl⟩ := List.length_eq_one_iff.mp hlength
    simpa [Visit.name, eq_comm] using hname
  · rintro rfl
    simp [Visit.name]

def memberNames (fs : FileSystem) (outName : Option String) (visits : List Visit) :
    List (List String) := (visits.filter (isMember fs outName)).map Visit.names

/-- **Just these paths make members.** -/
theorem mem_memberNames (order : FileSystem.Order) (hwf : fs.WellFormed)
    (hk : fs.isDirectoryAt k = true) :
    r ∈ memberNames fs (some archive) (fs.walkBelow order enters fs.height k root []) ↔
      IsPacked fs k root archive r := by
  rw [memberNames, List.mem_map]
  constructor
  · rintro ⟨v, hv, rfl⟩
    obtain ⟨hvisit, hmember⟩ := List.mem_filter.mp hv
    obtain ⟨r, e, hne, he, rfl, henters⟩ := (FileSystem.mem_walk hwf).mp hvisit
    rw [isMember, Bool.and_eq_true, Bool.and_eq_true, Bool.not_eq_true',
      Bool.not_eq_true'] at hmember
    obtain ⟨⟨hd, hself⟩, hfile⟩ := hmember
    refine ⟨⟨e, he, hd⟩, fun hr => ?_, (enters_iff hwf he hd).mp henters, hfile⟩
    rw [isArchiveItself_iff.mpr hr] at hself
    exact absurd hself (by decide)
  · intro h
    obtain ⟨e, he, hd⟩ := h.entry
    have hne : r ≠ [] := by
      rintro rfl
      rw [List.append_nil] at he
      rw [FileSystem.isDirectory_of_lookup hk he] at hd
      exact absurd hd (by decide)
    refine ⟨⟨root.descend r, r, e⟩, List.mem_filter.mpr ⟨?_, ?_⟩, rfl⟩
    · exact (FileSystem.mem_walk hwf).mpr
        ⟨r, e, hne, he, rfl, (enters_iff hwf he hd).mpr h.outside_git⟩
    · have hself : isArchiveItself (some archive) ⟨root.descend r, r, e⟩ = false := by
        rw [← Bool.not_eq_true, isArchiveItself_iff]
        exact h.ne_archive
      rw [isMember, hd, hself, h.isFile]
      rfl

/-! ## Making an archive -/

/-- An archive was made of what lies below `k`: an empty file first, then its members, which are
those of the paths. -/
structure Created (fs : FileSystem) (root : Path) (archive : String) (k out : Location) (mode : Nat)
    (paths : List (List String)) (members : List Member) (fs' : FileSystem) : Prop where
  isName : IsName archive
  route : Route fs (fun _ => True) root k
  directory : fs.isDirectoryAt k = true
  writable : ∃ existing, fs.writable (root.child archive) = .ok (out, existing)
  nodup : paths.Nodup
  mem_paths : ∀ r, r ∈ paths ↔ IsPacked (fs.setContent out mode []) k root archive r
  takes : List.Forall₂ (fun r m => Takes (fs.setContent out mode []) out (root.descend r) r m) paths
    members
  result : fs' = (fs.setContent out mode []).setContent out mode (encode members)

/-- An archive was made of what is met below `k`: an empty file first, then all that was
gathered. -/
structure Gathered (fs : FileSystem) (root : Path) (archive : String) (order : FileSystem.Order)
    (k out : Location) (mode : Nat) (members : List Member) (fs' : FileSystem) : Prop where
  isName : IsName archive
  route : Route fs (fun _ => True) root k
  directory : fs.isDirectoryAt k = true
  writable : ∃ existing, fs.writable (root.child archive) = .ok (out, existing) ∧
    mode = existing.getD FileSystem.newFileMode
  gathered : members = gather (fs.setContent out mode []) out (some archive) []
    ((fs.setContent out mode []).walkBelow order enters (fs.setContent out mode []).height k root
      [])
  result : fs' = (fs.setContent out mode []).setContent out mode (encode members)

theorem exists_gathered_of_createArchive (hwf : fs.WellFormed)
    (hdash : FileSystem.isDash root = false) (hroot : Usable root)
    (hone : Package.isOneComponent archive = true)
    (h : createArchive root (root.child archive) order fs = .ok members fs') :
    ∃ k out mode, Gathered fs root archive order k out mode members fs' := by
  rw [createArchive] at h
  cases hwritable : fs.writable (root.child archive) with
  | error e => simp [hwritable] at h
  | ok x =>
    obtain ⟨out, existing⟩ := x
    have hname := Package.isName_of_writable hone hwritable
    obtain ⟨hplace, hfree⟩ := FileSystem.exists_of_writable hwf hwritable
    obtain ⟨spot, hres, -⟩ := FileSystem.writable_eq_ok hwritable
    obtain ⟨k, hk, hroute⟩ := FileSystem.exists_route_of_resolve_child hwf hname hres
    simp only [hwritable] at h
    generalize hmode : existing.getD FileSystem.newFileMode = mode at h
    have hguides := FileSystem.guides_setContent hplace hfree mode []
    obtain ⟨kmode, hkmode⟩ := FileSystem.isDirectoryAt_iff.mp (hguides.directory k hk)
    have hfind := (hroute.of_guides hguides hk).find_directory hroot hkmode
    rw [FileSystem.walk_of_find hdash hfind] at h
    simp only [Path.fileName?_child root hname] at h
    obtain ⟨rfl, rfl⟩ : _ = members ∧ _ = fs' := by simpa using h
    exact ⟨k, out, mode, hname, hroute, hk, ⟨existing, hwritable, hmode.symm⟩, rfl, rfl⟩

/-- **Every archive was made so.** -/
theorem exists_created_of_createArchive (hwf : fs.WellFormed)
    (hdash : FileSystem.isDash root = false) (hroot : Usable root)
    (hone : Package.isOneComponent archive = true)
    (h : createArchive root (root.child archive) order fs = .ok members fs') :
    ∃ k out mode paths, Created fs root archive k out mode paths members fs' := by
  obtain ⟨k, out, mode, hgathered⟩ := exists_gathered_of_createArchive hwf hdash hroot hone h
  obtain ⟨existing, hwritable, -⟩ := hgathered.writable
  obtain ⟨hplace, hfree⟩ := FileSystem.exists_of_writable hwf hwritable
  have hwf' := FileSystem.wellFormed_setContent hplace hfree hwf mode []
  have hk' := (FileSystem.guides_setContent hplace hfree mode []).directory k hgathered.directory
  obtain ⟨ms, hgather, htakes⟩ := exists_gather (fs.setContent out mode []) out
    (some archive) [] ((fs.setContent out mode []).walkBelow order enters
      (fs.setContent out mode []).height k root [])
  rw [List.nil_append] at hgather
  refine ⟨k, out, mode, _, hgathered.isName, hgathered.route, hgathered.directory,
    ⟨existing, hwritable⟩, ?_, fun r => mem_memberNames order hwf' hk', ?_, hgathered.result⟩
  · exact (FileSystem.nodup_walkBelow hwf' _ _ _ _ _ _).sublist (List.filter_sublist.map _)
  · rw [hgathered.gathered, hgather, memberNames, List.forall₂_map_left_iff]
    have hpath : ∀ v ∈ ((fs.setContent out mode []).walkBelow order enters
        (fs.setContent out mode []).height k root []).filter
          (isMember (fs.setContent out mode []) (some archive)),
        v.path = root.descend v.names := by
      intro v hv
      obtain ⟨r, e, -, -, rfl, -⟩ := (FileSystem.mem_walk hwf').mp (List.mem_of_mem_filter hv)
      rfl
    refine ((List.forall₂_and_left _ _).mpr ⟨hpath, htakes⟩).imp fun v m hvm => ?_
    rw [← hvm.1]
    exact hvm.2

end Archive

/-! ## Packaging -/

namespace Package

variable {fs fs' : FileSystem} {root : Path} {options : PackageOptions} {packed : Packed}

/-- The plugin as it is archived. -/
def stripped (root : Path) (options : PackageOptions) (fs : FileSystem) : FileSystem :=
  if options.strip then
    ((stripArtifacts root options.stripDirs options.stripFiles).run fs).2
  else fs

theorem stripped_of_strip {doomed : List Path} (hs : options.strip = true)
    (h : stripArtifacts root options.stripDirs options.stripFiles fs = .ok doomed fs') :
    stripped root options fs = fs' := by
  rw [stripped, if_pos hs, Task.run, h]

theorem stripped_of_not_strip (hs : options.strip = false) : stripped root options fs = fs := by
  rw [stripped, if_neg (by rw [hs]; decide)]

def order (options : PackageOptions) : FileSystem.Order :=
  if options.sorted then .sorted else .enumeration

/-- The last part of packaging. -/
def pack (root out : Path) (options : PackageOptions) : Task Packed := do
  let members ← Archive.createArchive root out (order options)
  return ⟨out, members⟩

theorem package_eq (root : Path) (options : PackageOptions) (fs : FileSystem) :
    package root options fs =
      match Manifest.read fs root with
      | .error e => .error e fs
      | .ok manifest =>
        let name := archiveName manifest.name options
        if isOneComponent name then
          if options.strip then
            (stripArtifacts root options.stripDirs options.stripFiles >>= fun _ =>
              pack root (root.child name) options) fs
          else pack root (root.child name) options fs
        else .error (.invalid (.archiveName manifest.name)) fs := by
  have hget : package root options fs =
      (Task.ofExcept (Manifest.read fs root) >>= fun manifest => do
        let name := archiveName manifest.name options
        if !isOneComponent name then throw (.invalid (.archiveName manifest.name))
        if options.strip then
          let _ ← stripArtifacts root options.stripDirs options.stripFiles
        pack root (root.child name) options : Task Packed) fs := rfl
  rw [hget]
  cases hread : Manifest.read fs root with
  | error e => rfl
  | ok manifest =>
    show (if (!isOneComponent (archiveName manifest.name options)) = true then _ else _ :
      Task Packed) fs = _
    cases hone : isOneComponent (archiveName manifest.name options) with
    | false =>
      simp only [hone, Bool.false_eq_true, if_false]
      rfl
    | true =>
      simp only [hone, Bool.not_true, Bool.false_eq_true, if_false, if_true]
      split <;> rfl

theorem pack_eq_ok {out : Path} (h : pack root out options fs = .ok packed fs') :
    packed.path = out ∧
      Archive.createArchive root out (order options) fs = .ok packed.members fs' := by
  obtain ⟨members, fs₁, hcreate, hdone⟩ := Task.bind_eq_ok.mp h
  obtain ⟨rfl, rfl⟩ : (⟨out, members⟩ : Packed) = packed ∧ fs₁ = fs' := by
    simpa [pure, EStateM.pure] using hdone
  exact ⟨rfl, hcreate⟩

/-- **What packaging has done** when it succeeds. -/
theorem package_eq_ok (h : package root options fs = .ok packed fs') :
    ∃ manifest, Manifest.read fs root = .ok manifest ∧
      isOneComponent (archiveName manifest.name options) = true ∧
      (options.strip = true → ∃ doomed,
        stripArtifacts root options.stripDirs options.stripFiles fs =
          .ok doomed (stripped root options fs)) ∧
      packed.path = root.child (archiveName manifest.name options) ∧
      Archive.createArchive root packed.path (order options) (stripped root options fs) =
        .ok packed.members fs' := by
  rw [package_eq] at h
  cases hread : Manifest.read fs root with
  | error e => simp [hread] at h
  | ok manifest =>
    simp only [hread] at h
    split at h
    · rename_i hone
      split at h
      · rename_i hs
        obtain ⟨doomed, fs₁, hstrip, hpack⟩ := Task.bind_eq_ok.mp h
        obtain ⟨hpath, hcreate⟩ := pack_eq_ok hpack
        rw [stripped_of_strip hs hstrip, hpath]
        exact ⟨manifest, rfl, hone, fun _ => ⟨doomed, hstrip⟩, rfl, hcreate⟩
      · rename_i hs
        obtain ⟨hpath, hcreate⟩ := pack_eq_ok h
        rw [stripped_of_not_strip (by simpa using hs), hpath]
        exact ⟨manifest, rfl, hone, fun hs' => absurd hs' hs, rfl, hcreate⟩
    · exact absurd h (by simp)

end Package

end PluginManager
