import PluginManager.Proofs.FileSystem.Downward
import PluginManager.Proofs.Manifest.Decoding
import PluginManager.Proofs.Package.Contents
import PluginManager.Settings.Load
import PluginManager.Validation

/-!
# What a manifest needs

A manifest needs its own file, the directories of its components, and the files their roles require.
Packaging knows nothing of that; it leaves out what lies behind a link, in a repository or in an
artifact, and a directory without files.

* `checkComponents_eq_ok_iff`: what is checked of the components.
* `Kept`: nothing on the way keeps a path out of the archive.
* `exists_member_manifest`, `exists_member_file`: **what a manifest needs is a member** when it is
  kept.
-/

namespace PluginManager

open FileSystem (Route NoLinks)

theorem exists_mem_of_forall₂ {α β : Type} {R : α → β → Prop} {as : List α} {bs : List β}
    (h : List.Forall₂ R as bs) {a : α} (ha : a ∈ as) : ∃ b ∈ bs, R a b := by
  induction h with
  | nil => exact absurd ha (by simp)
  | cons hab _ ih =>
    rcases List.mem_cons.mp ha with rfl | ha
    · exact ⟨_, List.mem_cons_self, hab⟩
    · obtain ⟨b, hb, hab'⟩ := ih ha
      exact ⟨b, List.mem_cons_of_mem _ hb, hab'⟩

/-! ## What is checked -/

/-- The path of a file of the component, seen from the plugin. -/
def Component.need (c : Component) (file : Path) : Path := (Path.mk c.path).join file

theorem Component.source_join {c : Component} {root file : Path} (hdown : (Path.mk c.path).GoesDown)
    (hway : (Path.mk c.path).way ≠ []) (hfile : file.GoesDown) :
    (c.source root).join file = root.join (c.need file) :=
  (Path.join_join root (Path.text_ne_empty_of_way hway) hdown.relative hfile.relative).symm

theorem Component.way_need (c : Component) {file : Path} (hfile : file.GoesDown) :
    (c.need file).way = (Path.mk c.path).way ++ file.way := Path.way_join _ hfile.relative

theorem Component.goesDown_need {c : Component} {file : Path} (hdown : (Path.mk c.path).GoesDown)
    (hfile : file.GoesDown) : (c.need file).GoesDown := hdown.join hfile

theorem isFile_of_readDocument {fs : FileSystem} {root : Path} {document : Json}
    (h : readDocument fs root = .ok document) : fs.isFile (manifestPath root) = true := by
  rw [readDocument, FileSystem.readFile] at h
  cases hfind : fs.find true (manifestPath root) with
  | error e => simp [hfind] at h
  | ok x =>
    obtain ⟨l, e⟩ := x
    cases e with
    | file mode content => exact FileSystem.isFile_iff.mpr ⟨l, mode, content, hfind⟩
    | directory mode => simp [hfind] at h
    | link target => simp [hfind] at h

theorem Role.goesDown_of_mem_requiredFiles {role : Role} {file : Path}
    (h : file ∈ role.requiredFiles) :
    file.GoesDown ∧ file.way ≠ [] ∧ file = ⟨"/".intercalate file.way⟩ := by
  have hall : ∀ file ∈ role.requiredFiles,
      file.GoesDown ∧ file.way ≠ [] ∧ file = ⟨"/".intercalate file.way⟩ := by
    cases role <;> decide +kernel
  exact hall file h

/-- The member that a required file becomes lies in the directory of its component. -/
theorem Component.pieces_need {c : Component} {file : Path} (hdown : (Path.mk c.path).GoesDown)
    (h : file ∈ c.role.requiredFiles) :
    (Path.mk ("/".intercalate (c.need file).way)).pieces = (Path.mk c.path).way ++ file.way := by
  obtain ⟨hfile, hne, -⟩ := Role.goesDown_of_mem_requiredFiles h
  rw [Path.pieces_intercalate (goesDown_need hdown hfile).isName, c.way_need hfile]
  simp [c.way_need hfile, hne]

theorem checkComponents_eq_ok_iff {fs : FileSystem} {root : Path} {cs : List Component} :
    checkComponents fs root cs = .ok () ↔
      ∀ c ∈ cs, ∀ file ∈ c.role.requiredFiles, fs.isFile ((c.source root).join file) = true := by
  induction cs with
  | nil => simp [checkComponents]
  | cons c rest ih =>
    rw [checkComponents, List.forall_mem_cons, ← ih]
    cases hmissing : c.missingFile? fs root with
    | none =>
      rw [Component.missingFile?, List.find?_eq_none] at hmissing
      simpa using fun _ file hfile => by simpa using hmissing file hfile
    | some file =>
      rw [Component.missingFile?] at hmissing
      have hno := List.find?_some hmissing
      have hmem := List.mem_of_find?_eq_some hmissing
      constructor
      · intro h
        exact absurd h (by simp)
      · rintro ⟨hall, -⟩
        rw [hall file hmem] at hno
        exact absurd hno (by decide)

namespace Manifest

variable {fs : FileSystem} {root : Path} {k : Location} {m : Manifest} {e : Entry}

theorem read_eq_ok_iff : read fs root = .ok m ↔
    ∃ document, readDocument fs root = .ok document ∧ ofDocument fs root document = .ok m := by
  rw [read]
  cases readDocument fs root <;> simp

theorem exists_draft_of_read (hroot : fs.find true root = .ok (k, e)) (h : read fs root = .ok m) :
    ∃ document d, readDocument fs root = .ok document ∧ Draft.Supplied document d ∧
      d.Valid fs k ∧ d.Becomes m := by
  obtain ⟨document, hread, hm⟩ := read_eq_ok_iff.mp h
  obtain ⟨d, hd, hvalid, hbecomes⟩ := (ofDocument_eq_ok_iff hroot).mp hm
  exact ⟨document, d, hread, hd, hvalid, hbecomes⟩

theorem Listing.Valid.goesDown {l : Listing} (h : l.Valid fs k) : (Path.mk l.path).GoesDown :=
  ⟨h.relative, h.no_parent⟩

theorem Listing.Valid.way_ne_nil {l : Listing} (h : l.Valid fs k) : (Path.mk l.path).way ≠ [] := by
  obtain ⟨step, hstep, hne⟩ := h.named
  exact List.ne_nil_of_mem (List.mem_filter.mpr ⟨hstep, by simpa using hne⟩)

/-- Every component is one of the entries. -/
theorem Draft.Becomes.exists_listing {d : Draft} (h : d.Becomes m) {c : Component}
    (hc : c ∈ m.installs) : ∃ l ∈ d.installs, l.Becomes c :=
  exists_mem_of_forall₂ (List.Forall₂.flip h.installs) hc

theorem goesDown_of_ofDocument {document : Json} (hroot : fs.find true root = .ok (k, e))
    (h : ofDocument fs root document = .ok m) {c : Component} (hc : c ∈ m.installs) :
    (Path.mk c.path).GoesDown ∧ (Path.mk c.path).way ≠ [] := by
  obtain ⟨d, -, hvalid, hbecomes⟩ := (ofDocument_eq_ok_iff hroot).mp h
  obtain ⟨l, hl, hlc⟩ := hbecomes.exists_listing hc
  rw [hlc.path]
  exact ⟨(hvalid.installs l hl).goesDown, (hvalid.installs l hl).way_ne_nil⟩

theorem goesDown_of_read (hroot : fs.find true root = .ok (k, e)) (h : read fs root = .ok m)
    {c : Component} (hc : c ∈ m.installs) :
    (Path.mk c.path).GoesDown ∧ (Path.mk c.path).way ≠ [] := by
  obtain ⟨document, -, hm⟩ := read_eq_ok_iff.mp h
  exact goesDown_of_ofDocument hroot hm hc

end Manifest

namespace Settings

/-- The files that are artifacts when the user says nothing. -/
theorem stripFiles_of_ofUser_nil {s : Settings} (h : ofUser [] = .ok s) :
    s.package.stripFiles = ["yarn.lock", "package-lock.json"] := by
  have hfiles : (ofUser []).toOption.map (fun s => s.package.stripFiles) =
      some ["yarn.lock", "package-lock.json"] := by
    decide +kernel
  rw [h] at hfiles
  exact Option.some.inj hfiles

end Settings

namespace Package

variable {fs fs' g : FileSystem} {k out : Location} {root : Path} {options : PackageOptions}
  {archive : String} {r : List String} {q file : Path} {m : Member} {manifest : Manifest}
  {packed : Packed} {e : Entry}

/-- None of these files is an artifact. -/
theorem not_mem_stripFiles {role : Role} (h : file ∈ role.requiredFiles) :
    ∀ n ∈ file.way.getLast?, n ∉ ["yarn.lock", "package-lock.json"] := by
  have hall : ∀ file ∈ role.requiredFiles, ∀ n ∈ file.way.getLast?,
      n ∉ ["yarn.lock", "package-lock.json"] := by
    cases role <;> decide +kernel
  exact hall file h

/-! ## What is kept -/

/-- No link, no repository and no artifact stands on the way, and what is itself a link leads to a
regular file even after stripping. -/
structure Kept (fs : FileSystem) (k : Location) (root : Path) (options : PackageOptions)
    (r : List String) : Prop where
  noLinks : NoLinks fs k r
  outside_git : ".git" ∉ r.dropLast
  outside_dirs : options.strip = true → ∀ n ∈ r.dropLast, n ∉ options.stripDirs
  link : ∀ target, fs.lookup (k ++ r) = some (.link target) →
    (stripped root options fs).isFile (root.descend r) = true

/-- A regular file that is kept is archived, however it is spelled. -/
theorem Started.isPacked_of_kept (h : Started fs root options k out g) (hwf : fs.WellFormed)
    (hstrip : options.strip = true →
      Stripped fs k options.stripDirs options.stripFiles (stripped root options fs))
    (hq : q.GoesDown) (hne : q.way ≠ []) (hfile : fs.isFile (root.join q) = true)
    (hkept : Kept fs k root options q.way)
    (hname : options.strip = true → ∀ n, q.way.getLast? = some n → n ∉ options.stripFiles)
    (harchive : q.way ≠ [archive]) : Archive.IsPacked g k root archive q.way := by
  have hshrinks := shrinks_stripped fs root options
  have hroute' : Route (stripped root options fs) (fun _ => True) root k :=
    h.route.of_guides h.guided h.directory
  have hk' := h.guided.directory k h.directory
  have hk := hshrinks.guides.directory k hk'
  obtain ⟨l, mode, content, hfind⟩ := FileSystem.isFile_iff.mp hfile
  obtain ⟨-, hfits, hends⟩ :=
    (hroute'.of_guides hshrinks.guides hk').way_of_find hk hq hne hkept.noLinks hfind
  obtain ⟨e, he, hd⟩ : ∃ e, fs.lookup (k ++ q.way) = some e ∧ e.isDirectory = false := by
    rcases hends with he | ⟨target, he⟩
    · exact ⟨_, he, rfl⟩
    · exact ⟨_, he, rfl⟩
  have hleft := (lookup_stripped_iff hwf hstrip he hd).mpr ⟨hkept.outside_dirs, hname⟩
  have hleads : (stripped root options fs).isFile (root.descend q.way) = true := by
    rcases hends with hends | ⟨target, hends⟩
    · obtain rfl := Option.some.inj (he.symm.trans hends)
      have hclear := (hshrinks.wellFormed hwf).clear (by simp [hleft] :
        (stripped root options fs).lookup (k ++ q.way) ≠ none)
      exact FileSystem.isFile_iff.mpr ⟨_, mode, content,
        hroute'.find_descend hk' hq.isName hne hclear hfits hleft (.inr rfl)⟩
    · exact hkept.link target hends
  refine ⟨?_, harchive, hkept.outside_git, h.isFile_of_stripped hleads⟩
  by_cases hout : k ++ q.way = out
  · obtain ⟨mode, content, he⟩ := h.file
    exact ⟨_, by rw [hout, he], rfl⟩
  · exact ⟨e, by rw [h.elsewhere _ hout, hleft], hd⟩

/-- **What is kept is a member**, by the names that lead to it. -/
theorem exists_member_of_kept (hwf : fs.WellFormed) (hdash : FileSystem.isDash root = false)
    (hm : Manifest.read fs root = .ok manifest) (hroot : fs.find true root = .ok (k, e))
    (h : package root options fs = .ok packed fs') (hq : q.GoesDown) (hne : q.way ≠ [])
    (hfile : fs.isFile (root.join q) = true) (hkept : Kept fs k root options q.way)
    (hname : options.strip = true → ∀ n, q.way.getLast? = some n → n ∉ options.stripFiles)
    (harchive : q.way ≠ [archiveName manifest.name options]) :
    ∃ g out, Started fs root options k out g ∧
      ((∀ e, fs.lookup (k ++ [archiveName manifest.name options]) = some e → e.isFile = true) →
        out = k ++ [archiveName manifest.name options]) ∧
      Archive.IsPacked g k root (archiveName manifest.name options) q.way ∧
      ∃ m ∈ packed.members, Archive.Takes g out (root.descend q.way) q.way m := by
  obtain ⟨hstrip, -, out, mode, paths, hcreated⟩ :=
    exists_created_of_package hwf hdash hm hroot h
  have hstarted := started_of_created hwf hcreated
  have hpacked := hstarted.isPacked_of_kept hwf hstrip hq hne hfile hkept hname harchive
  exact ⟨_, out, hstarted, out_eq_of_created hcreated, hpacked,
    exists_mem_of_forall₂ hcreated.takes ((hcreated.mem_paths q.way).mpr hpacked)⟩

/-! ## Members that are needed -/

section Members

variable {settings : Settings} {c : Component}
  (hwf : fs.WellFormed) (hdash : FileSystem.isDash root = false)
  (hdefaults : Settings.ofUser [] = .ok settings)
  (hfiles : options.stripFiles = settings.package.stripFiles)
  (hm : Manifest.read fs root = .ok manifest) (hroot : fs.find true root = .ok (k, e))
  (h : package root options fs = .ok packed fs')

include hwf hdash hm hroot h in
theorem isDirectoryAt_of_package : fs.isDirectoryAt k = true := by
  obtain ⟨-, -, out, mode, paths, hcreated⟩ := exists_created_of_package hwf hdash hm hroot h
  exact (shrinks_stripped fs root options).guides.directory k hcreated.directory

include hwf hdash hdefaults hfiles hm hroot h

/-- **The manifest is a member**, and the one that was read. -/
theorem exists_member_manifest
    (hlink : ∀ target, fs.lookup (k ++ [manifestName]) = some (.link target) →
      (stripped root options fs).isFile (manifestPath root) = true)
    (hne : archiveName manifest.name options ≠ manifestName) :
    ∃ m ∈ packed.members, m.name = manifestName ∧
      (Unclaimed fs k root (archiveName manifest.name options) →
        fs.readFile (manifestPath root) = .ok m.content) := by
  have hway : (Path.mk manifestName).way = [manifestName] := by decide
  obtain ⟨document, -, hread, -⟩ := Manifest.exists_draft_of_read hroot hm
  have hfile : fs.isFile (root.join ⟨manifestName⟩) = true := isFile_of_readDocument hread
  have hkept : Kept fs k root options (Path.mk manifestName).way := by
    rw [hway]
    have hk := isDirectoryAt_of_package hwf hdash hm hroot h
    exact ⟨(FileSystem.clear_singleton hk manifestName).noLinks, by simp, fun _ => by simp, hlink⟩
  have hname : options.strip = true →
      ∀ n, (Path.mk manifestName).way.getLast? = some n → n ∉ options.stripFiles := by
    intro _ n hn
    rw [hway] at hn
    rw [hfiles, Settings.stripFiles_of_ofUser_nil hdefaults, ← Option.some.inj hn]
    decide
  obtain ⟨g, out, hstarted, hout, hpacked, m, hmem, htakes⟩ := exists_member_of_kept hwf hdash hm
    hroot h (by decide) (by decide) hfile hkept hname (by simpa [hway] using Ne.symm hne)
  rw [hway] at hpacked htakes
  refine ⟨m, hmem, htakes.name, fun hplace => ?_⟩
  obtain rfl := hout hplace.free
  obtain ⟨l, mode, hfind, -⟩ := (hstarted.isCopy hplace hpacked htakes).file
  have hshrinks := shrinks_stripped fs root options
  have hwas : fs.find true (manifestPath root) = .ok (l, .file mode m.content) :=
    FileSystem.find_of_guides hshrinks.guides hfind
      (hshrinks.lookup _ _ (FileSystem.lookup_of_find hfind)) rfl
  rw [FileSystem.readFile, hwas]

/-- **A required file is a member**, by the path of its component without dots. -/
theorem exists_member_file (hc : c ∈ manifest.installs) (hfile : file ∈ c.role.requiredFiles)
    (hisFile : fs.isFile ((c.source root).join file) = true)
    (hkept : Kept fs k root options (c.need file).way) :
    ∃ m ∈ packed.members, m.name = "/".intercalate (c.need file).way := by
  obtain ⟨hdown, hway⟩ := Manifest.goesDown_of_read hroot hm hc
  obtain ⟨hfileDown, hfileWay, -⟩ := Role.goesDown_of_mem_requiredFiles hfile
  have hneed := c.way_need hfileDown
  rw [Component.source_join hdown hway hfileDown] at hisFile
  have hname : options.strip = true →
      ∀ n, (c.need file).way.getLast? = some n → n ∉ options.stripFiles := by
    intro _ n hn
    rw [hneed, List.getLast?_append_of_ne_nil _ hfileWay] at hn
    rw [hfiles, Settings.stripFiles_of_ofUser_nil hdefaults]
    exact not_mem_stripFiles hfile n hn
  have hlong : (c.need file).way ≠ [archiveName manifest.name options] := by
    intro heq
    have hlength := congrArg List.length heq
    rw [hneed, List.length_append, List.length_singleton] at hlength
    have hpos := List.length_pos_of_ne_nil hway
    have hpos' := List.length_pos_of_ne_nil hfileWay
    omega
  obtain ⟨_, _, -, -, -, m, hmem, htakes⟩ := exists_member_of_kept hwf hdash hm hroot h
    (Component.goesDown_need hdown hfileDown) (by rw [hneed]; simp [hway]) hisFile hkept hname hlong
  exact ⟨m, hmem, htakes.name⟩

end Members

end Package

end PluginManager
