import PluginManager.Proofs.Manifest.Components
import PluginManager.Proofs.Package.Members
import PluginManager.Proofs.Path.Downward

/-!
# The files of a plugin

An archive holds the files of a plugin that are left when it has been stripped, each once, with its
bytes and permissions.

* `Belongs`: what belongs into the archive, told of the plugin as it was.
* `IsCopy`: a member and the file it is made of.
* `package_members`: **what an archive holds**.
* `package_dash`: the root for which it holds nothing.
-/

namespace PluginManager

/-! ## Records -/

namespace Archive

variable {members : List Member} {m : Member}

/-- The field of a record that tells how its content is packed. -/
def methodField (record : Bytes) : Bytes := (record.drop 8).take 2

theorem methodField_encodeMember (m : Member) :
    methodField (encodeMember m) = little 2 deflateMethod := by
  simp [methodField, encodeMember, localHeader, little]

theorem exists_encode (members : List Member) : ∃ tail, encode members = body members ++ tail :=
  ⟨_, List.append_assoc ..⟩

theorem exists_record (hm : m ∈ members) :
    ∃ before after, encode members = before ++ encodeMember m ++ after := by
  obtain ⟨before, after, rfl⟩ := List.append_of_mem hm
  obtain ⟨tail, htail⟩ := exists_encode (before ++ m :: after)
  refine ⟨body before, body after ++ tail, ?_⟩
  rw [htail, body, List.flatMap_append, List.flatMap_cons]
  simp only [body, List.append_assoc]

end Archive

/-! ## What an archive holds -/

namespace Package

open FileSystem (Route Shrinks)

variable {fs fs' : FileSystem} {k : Location} {root : Path} {options : PackageOptions}
  {archive : String} {r : List String} {m : Member} {manifest : Manifest} {packed : Packed}
  {e : Entry}

/-- What stripping leaves, whatever comes of it, is what is archived. -/
theorem stripped_of_leaves {R : FileSystem → Prop} (h : R fs)
    (hleaves : Task.Leaves (stripArtifacts root options.stripDirs options.stripFiles) fs R) :
    R (stripped root options fs) := by
  rw [stripped]
  split
  · rw [Task.run]
    split
    · rename_i hok
      exact hleaves.ok _ _ hok
    · rename_i herror
      exact hleaves.error _ _ herror
  · exact h

theorem shrinks_stripped (fs : FileSystem) (root : Path) (options : PackageOptions) :
    Shrinks fs (stripped root options fs) :=
  stripped_of_leaves (.refl fs) (leaves_stripArtifacts fs root _ _)

/-- **How an archive came about.** -/
theorem exists_created_of_package (hwf : fs.WellFormed) (hdash : FileSystem.isDash root = false)
    (hm : Manifest.read fs root = .ok manifest) (hroot : fs.find true root = .ok (k, e))
    (h : package root options fs = .ok packed fs') :
    (options.strip = true →
      Stripped fs k options.stripDirs options.stripFiles (stripped root options fs)) ∧
    packed.path = root.child (archiveName manifest.name options) ∧
    ∃ out mode paths, Archive.Created (stripped root options fs) root
      (archiveName manifest.name options) k out mode paths packed.members fs' := by
  obtain ⟨manifest', hread, hone, hstrip, hpath, hcreate⟩ := package_eq_ok h
  obtain rfl : manifest = manifest' := Except.ok.inj (hm.symm.trans hread)
  have hshrinks := shrinks_stripped fs root options
  have hu := FileSystem.usable_of_find hroot
  rw [hpath] at hcreate
  obtain ⟨k', out, mode, paths, hcreated⟩ := Archive.exists_created_of_createArchive
    (hshrinks.wellFormed hwf) hdash hu hone hcreate
  have hk' := hshrinks.guides.directory k' hcreated.directory
  have hroute := hcreated.route.of_guides hshrinks.guides hcreated.directory
  obtain ⟨kmode, hkmode⟩ := FileSystem.isDirectoryAt_iff.mp hk'
  have hfind := hroute.find_directory hu hkmode
  obtain ⟨rfl, rfl⟩ : k = k' ∧ e = .directory kmode := by simpa [hroot] using hfind
  refine ⟨fun hs => ?_, hpath, out, mode, paths, hcreated⟩
  obtain ⟨doomed, hdoomed⟩ := hstrip hs
  exact stripped_of_stripArtifacts hwf hdash hroot hdoomed hcreated.route hcreated.directory

/-- The names lead, in the plugin as it was, to something other than a directory, not to the archive
at the root and past no directory that is left out; and after stripping they still lead to a regular
file. -/
structure Belongs (fs : FileSystem) (k : Location) (root : Path) (options : PackageOptions)
    (archive : String) (r : List String) : Prop where
  entry : ∃ e, fs.lookup (k ++ r) = some e ∧ e.isDirectory = false
  ne_archive : r ≠ [archive]
  outside_git : ".git" ∉ r.dropLast
  outside_dirs : options.strip = true → ∀ n ∈ r.dropLast, n ∉ options.stripDirs
  not_stripped : options.strip = true → ∀ n, r.getLast? = some n → n ∉ options.stripFiles
  isFile : (stripped root options fs).isFile (root.descend r) = true

/-- The member has the content and the permissions of the regular file the names lead to, and the
names for its own. -/
structure IsCopy (fs : FileSystem) (root : Path) (r : List String) (m : Member) : Prop where
  name : m.name = "/".intercalate r
  pieces : (Path.mk m.name).pieces = r
  isName : ∀ n ∈ r, IsName n
  file : ∃ k mode, fs.find true (root.descend r) = .ok (k, .file mode m.content) ∧
    m.mode = 0o100000 + mode % 0o1000

theorem lookup_stripped_iff (hwf : fs.WellFormed)
    (hstrip : options.strip = true →
      Stripped fs k options.stripDirs options.stripFiles (stripped root options fs))
    (he : fs.lookup (k ++ r) = some e) (hd : e.isDirectory = false) :
    (stripped root options fs).lookup (k ++ r) = some e ↔
      (options.strip = true → ∀ n ∈ r.dropLast, n ∉ options.stripDirs) ∧
      (options.strip = true → ∀ n, r.getLast? = some n → n ∉ options.stripFiles) := by
  cases hs : options.strip with
  | true =>
    simp only [forall_const]
    exact (hstrip hs).lookup_iff hwf he hd
  | false =>
    rw [stripped_of_not_strip hs]
    simp [he]

/-- The archive has its place to itself: nothing or a regular file is there, and no link of the
plugin leads to it. -/
structure Unclaimed (fs : FileSystem) (k : Location) (root : Path) (archive : String) : Prop where
  free : ∀ e, fs.lookup (k ++ [archive]) = some e → e.isFile = true
  unlinked : ∀ r target spot, fs.lookup (k ++ r) = some (.link target) →
    fs.resolve true (root.descend r) = .ok spot → spot.location ≠ k ++ [archive]

/-- A path that is archived does not lead to the place of the archive. -/
theorem location_ne_of_find {g : FileSystem} {l : Location} {e' : Entry}
    (hwf : g.WellFormed) (hg : FileSystem.Guides g fs)
    (hroute : Route g (fun _ => True) root k) (hk : g.isDirectoryAt k = true)
    (hplace : Unclaimed fs k root archive)
    (hentry : g.lookup (k ++ r) = some e) (hd : e.isDirectory = false) (hne : r ≠ [archive])
    (h : g.find true (root.descend r) = .ok (l, e')) : l ≠ k ++ [archive] := by
  rintro rfl
  have hnil : r ≠ [] := by
    rintro rfl
    rw [List.append_nil] at hentry
    rw [FileSystem.isDirectory_of_lookup hk hentry] at hd
    exact absurd hd (by decide)
  by_cases hlink : ∃ target, e = .link target
  · obtain ⟨target, rfl⟩ := hlink
    obtain ⟨spot, hres, hlocation, -⟩ := FileSystem.find_eq_ok_iff.mp h
    refine hplace.unlinked r target _ (hg.link _ target hentry)
      (FileSystem.resolve_of_guides hg hres ?_) hlocation
    intro target' htarget
    rw [hlocation] at htarget
    exact absurd (hplace.free _ htarget) (by simp [Entry.isFile])
  · have hno : ∀ target, g.lookup (k ++ r) ≠ some (.link target) := by
      intro target htarget
      exact hlink ⟨target, Option.some.inj (hentry.symm.trans htarget)⟩
    have heq := hroute.location_of_find hk hwf hnil (by simp [hentry]) (.inr hno) h
    exact hne (List.append_cancel_left heq).symm

/-! ### The files at the moment they are read -/

/-- The plugin as it is archived, with a file in the place of the archive. -/
structure Started (fs : FileSystem) (root : Path) (options : PackageOptions) (k out : Location)
    (g : FileSystem) : Prop where
  wellFormed : g.WellFormed
  guides : FileSystem.Guides (stripped root options fs) g
  guided : FileSystem.Guides g (stripped root options fs)
  route : Route g (fun _ => True) root k
  directory : g.isDirectoryAt k = true
  file : ∃ mode content, g.lookup out = some (.file mode content)
  elsewhere : ∀ l, l ≠ out → g.lookup l = (stripped root options fs).lookup l

section Started

variable {g : FileSystem} {l out : Location} {mode : Nat} {paths : List (List String)}
  {members : List Member}

theorem started_of_created (hwf : fs.WellFormed)
    (h : Archive.Created (stripped root options fs) root archive k out mode paths members fs') :
    Started fs root options k out ((stripped root options fs).setContent out mode []) := by
  obtain ⟨existing, hwritable⟩ := h.writable
  have hwf' := (shrinks_stripped fs root options).wellFormed hwf
  obtain ⟨hplace, hfile⟩ := FileSystem.exists_of_writable hwf' hwritable
  have hguides := FileSystem.guides_setContent hplace hfile mode []
  refine ⟨FileSystem.wellFormed_setContent hplace hfile hwf' mode [], hguides,
    FileSystem.guides_of_setContent hplace mode [], h.route.of_guides hguides h.directory,
    hguides.directory k h.directory, ⟨mode, [], ?_⟩, fun l hl => ?_⟩
  · rw [FileSystem.lookup_setContent _ hplace.ne_nil, if_pos rfl]
  · rw [FileSystem.lookup_setContent _ hplace.ne_nil, if_neg hl]

/-- The archive is at the root, unless a link was there. -/
theorem out_eq_of_created
    (h : Archive.Created (stripped root options fs) root archive k out mode paths members fs')
    (hfree : ∀ e, fs.lookup (k ++ [archive]) = some e → e.isFile = true) :
    out = k ++ [archive] := by
  obtain ⟨existing, hwritable⟩ := h.writable
  obtain ⟨spot, hres, -, -, rfl, -⟩ := FileSystem.writable_eq_ok hwritable
  have hno : ∀ target,
      (stripped root options fs).lookup (k ++ [archive]) ≠ some (.link target) := by
    intro target htarget
    have hfile := hfree _ ((shrinks_stripped fs root options).lookup _ _ htarget)
    exact absurd hfile (by simp [Entry.isFile])
  have hclear := FileSystem.clear_singleton h.directory archive
  have hnames : ∀ name ∈ [archive], IsName name := by simpa using h.isName
  obtain ⟨-, -, rfl⟩ := h.route.clear_of_resolve h.directory hnames (by simp) hclear.noLinks
    (.inr hno) hres
  rfl

namespace Started

/-- What leads to a regular file after stripping still does. -/
theorem isFile_of_stripped (h : Started fs root options k out g) {p : Path}
    (hfile : (stripped root options fs).isFile p = true) : g.isFile p = true := by
  obtain ⟨l, mode, content, hfind⟩ := FileSystem.isFile_iff.mp hfile
  by_cases hl : l = out
  · obtain ⟨mode', content', he⟩ := h.file
    rw [← hl] at he
    exact FileSystem.isFile_iff.mpr
      ⟨l, mode', content', FileSystem.find_of_guides h.guides hfind he rfl⟩
  · have he := FileSystem.lookup_of_find hfind
    rw [← h.elsewhere l hl] at he
    exact FileSystem.isFile_iff.mpr
      ⟨l, mode, content, FileSystem.find_of_guides h.guides hfind he rfl⟩

variable (h : Started fs root options k (k ++ [archive]) g)
  (hplace : Unclaimed fs k root archive)
include h

theorem lookup_eq (hne : r ≠ [archive]) :
    g.lookup (k ++ r) = (stripped root options fs).lookup (k ++ r) :=
  h.elsewhere (k ++ r) fun heq => hne (List.append_cancel_left heq)

include hplace

/-- What is archived is found after stripping as it is found when it is read. -/
theorem find_stripped {mode : Nat} {content : Bytes} (hentry : g.lookup (k ++ r) = some e)
    (hd : e.isDirectory = false) (hne : r ≠ [archive])
    (hfind : g.find true (root.descend r) = .ok (l, .file mode content)) :
    l ≠ k ++ [archive] ∧
      (stripped root options fs).find true (root.descend r) = .ok (l, .file mode content) := by
  have hl := location_ne_of_find h.wellFormed
    (h.guided.trans (shrinks_stripped fs root options).guides) h.route h.directory hplace
    hentry hd hne hfind
  have he := FileSystem.lookup_of_find hfind
  rw [h.elsewhere l hl] at he
  exact ⟨hl, FileSystem.find_of_guides h.guided hfind he rfl⟩

/-- **What becomes a member**, told of the plugin as it was. -/
theorem isPacked_iff (hwf : fs.WellFormed)
    (hstrip : options.strip = true →
      Stripped fs k options.stripDirs options.stripFiles (stripped root options fs)) :
    Archive.IsPacked g k root archive r ↔ Belongs fs k root options archive r := by
  constructor
  · rintro ⟨⟨e, he, hd⟩, hne, hgit, hfile⟩
    obtain ⟨l, mode, content, hfind⟩ := FileSystem.isFile_iff.mp hfile
    have hleft := he
    rw [h.lookup_eq hne] at hleft
    have hwas := (shrinks_stripped fs root options).lookup _ e hleft
    obtain ⟨hdirs, hfiles⟩ := (lookup_stripped_iff hwf hstrip hwas hd).mp hleft
    exact ⟨⟨e, hwas, hd⟩, hne, hgit, hdirs, hfiles, FileSystem.isFile_iff.mpr
      ⟨l, mode, content, (h.find_stripped hplace he hd hne hfind).2⟩⟩
  · rintro ⟨⟨e, hwas, hd⟩, hne, hgit, hdirs, hfiles, hfile⟩
    have hleft := (lookup_stripped_iff hwf hstrip hwas hd).mpr ⟨hdirs, hfiles⟩
    rw [← h.lookup_eq hne] at hleft
    exact ⟨⟨e, hleft, hd⟩, hne, hgit, h.isFile_of_stripped hfile⟩

theorem isCopy (hr : Archive.IsPacked g k root archive r)
    (htakes : Archive.Takes g (k ++ [archive]) (root.descend r) r m) :
    IsCopy (stripped root options fs) root r m := by
  obtain ⟨e, he, hd⟩ := hr.entry
  have hnil : r ≠ [] := by
    rintro rfl
    rw [List.append_nil] at he
    rw [FileSystem.isDirectory_of_lookup h.directory he] at hd
    exact absurd hd (by decide)
  have hnames : ∀ n ∈ r, IsName n := fun n hn =>
    h.wellFormed.isName (by simp [he]) n (List.mem_append_right k hn)
  obtain ⟨l, mode, content, hfind, hmode, hcontent⟩ := htakes.file
  obtain ⟨hl, hfind'⟩ := h.find_stripped hplace he hd hr.ne_archive hfind
  refine ⟨htakes.name, ?_, hnames, l, mode, ?_, hmode⟩
  · rw [htakes.name]
    exact Path.pieces_intercalate hnames hnil
  · rw [hcontent hl, hfind']

end Started

end Started

/-! ### The archive -/

/-- **An archive holds just the files that belong into it**, each once and as it was, unless the
root is a lone dash. -/
theorem package_members (hwf : fs.WellFormed) (hdash : FileSystem.isDash root = false)
    (hm : Manifest.read fs root = .ok manifest) (hroot : fs.find true root = .ok (k, e))
    (hplace : Unclaimed fs k root (archiveName manifest.name options))
    (h : package root options fs = .ok packed fs') :
    ∃ paths : List (List String), paths.Nodup ∧
      (∀ r, r ∈ paths ↔ Belongs fs k root options (archiveName manifest.name options) r) ∧
      List.Forall₂ (IsCopy (stripped root options fs) root) paths packed.members ∧
      (packed.members.map Member.name).Nodup ∧
      packed.members.length = paths.length ∧
      packed.path = root.child (archiveName manifest.name options) ∧
      (∃ mode, fs'.lookup (k ++ [archiveName manifest.name options]) =
        some (.file mode (Archive.encode packed.members))) ∧
      ∀ m ∈ packed.members,
        (∃ before after,
          Archive.encode packed.members = before ++ Archive.encodeMember m ++ after) ∧
        Archive.methodField (Archive.encodeMember m) =
          Archive.little 2 Archive.deflateMethod := by
  obtain ⟨hstrip, hpath, out, mode, paths, hcreated⟩ :=
    exists_created_of_package hwf hdash hm hroot h
  obtain rfl := out_eq_of_created hcreated hplace.free
  have hstarted := started_of_created hwf hcreated
  have hcopies : List.Forall₂ (IsCopy (stripped root options fs) root) paths packed.members := by
    refine ((List.forall₂_and_left _ _).mpr ⟨fun r hr => hr, hcreated.takes⟩).imp
      fun r m ⟨hr, htakes⟩ => ?_
    exact hstarted.isCopy hplace ((hcreated.mem_paths r).mp hr) htakes
  have hnames : packed.members.map (fun m => (Path.mk m.name).pieces) = paths := by
    rw [← List.forall₂_eq_eq_eq, List.forall₂_map_left_iff]
    exact hcopies.flip.imp fun m r hcopy => hcopy.pieces
  refine ⟨paths, hcreated.nodup, fun r => ?_, hcopies, ?_, hcopies.length_eq.symm, hpath,
    ⟨mode, ?_⟩, fun m hmem => ⟨Archive.exists_record hmem, Archive.methodField_encodeMember m⟩⟩
  · exact (hcreated.mem_paths r).trans (hstarted.isPacked_iff hplace hwf hstrip)
  · refine List.Nodup.of_map (fun name => (Path.mk name).pieces) ?_
    rw [List.map_map]
    exact hnames ▸ hcreated.nodup
  · rw [hcreated.result, FileSystem.lookup_setContent _ (by simp), if_pos rfl]

/-- A plugin in `root` with artifacts, a link, an archive made earlier and a repository. -/
def messyPlugin (root : String) : FileSystem where
  entries :=
    [([root], .directory 0o755), ([root, "x"], .directory 0o755),
      ([root, "x", "plugin.py"], .file 0o700 [1]), ([root, "x", "again.py"], .link ⟨"plugin.py"⟩),
      ([root, "node_modules"], .directory 0o755), ([root, "node_modules", "y"], .file 0o644 []),
      ([root, "yarn.lock"], .file 0o644 []), ([root, "demo.zip"], .file 0o640 [2]),
      ([root, ".git"], .directory 0o755), ([root, ".git", "HEAD"], .file 0o644 []),
      ([root, "manifest.json"], .file 0o644
        (Text.encode "[\"demo\",\"acme\",null,[[\"x\",\"backend\"]]]"))]
  times := []
  clock := 0
  workingDirectory := []

def messyManifest : Manifest := ⟨"demo", "acme", none, [⟨"x", .backend, "x"⟩]⟩

def messyOptions : PackageOptions :=
  ⟨true, ["node_modules", "__pycache__"], ["yarn.lock", "package-lock.json"], "zip", true⟩

/-- The members, when the packaging succeeds. -/
def packedMembers (root : Path) (options : PackageOptions) (fs : FileSystem) :
    Option (List Member) :=
  ((package root options).run fs).1.toOption.map Packed.members

theorem exists_packed {ms : List Member} (h : packedMembers root options fs = some ms) :
    ∃ packed fs', package root options fs = .ok packed fs' ∧ packed.members = ms := by
  rw [packedMembers, Task.run] at h
  cases hpackage : package root options fs with
  | error e fs' => simp [hpackage, Except.toOption] at h
  | ok packed fs' => exact ⟨packed, fs', rfl, by simpa [hpackage, Except.toOption] using h⟩

/-- Its one link does not lead to the archive. -/
theorem unclaimed_messyPlugin {root : String} (hroot : root ∈ ["p", "-"]) :
    Unclaimed (messyPlugin root) [root] ⟨root⟩ "demo.zip" := by
  have hfree : ∀ root ∈ ["p", "-"],
      ((messyPlugin root).lookup [root, "demo.zip"]).all Entry.isFile = true := by
    decide +kernel
  have honly : ∀ root ∈ ["p", "-"], ∀ l ∈ (messyPlugin root).entries.map Prod.fst,
      ((messyPlugin root).lookup l).any Entry.isLink = true → l = [root, "x", "again.py"] := by
    decide +kernel
  have hleads : ∀ root ∈ ["p", "-"], ((messyPlugin root).resolve true
      ((Path.mk root).descend ["x", "again.py"])).toOption.map FileSystem.Spot.location =
        some [root, "x", "plugin.py"] := by
    decide +kernel
  refine ⟨fun e he => ?_, fun r target spot he hres => ?_⟩
  · have hfile := hfree root hroot
    rw [List.singleton_append] at he
    rwa [he] at hfile
  · have hkey := (FileSystem.mem_keys (by simp)).mpr (Option.ne_none_iff_exists'.mpr ⟨_, he⟩)
    obtain rfl : r = ["x", "again.py"] := by
      simpa using honly root hroot _ hkey (by rw [he]; rfl)
    have hspot := hleads root hroot
    rw [hres] at hspot
    rw [Option.some.inj hspot]
    simp

/-- What is archived of the plugin. -/
def messyArchive : List Member :=
  [⟨"manifest.json", 0o100644, Text.encode "[\"demo\",\"acme\",null,[[\"x\",\"backend\"]]]"⟩,
    ⟨"x/again.py", 0o100700, [1]⟩, ⟨"x/plugin.py", 0o100700, [1]⟩]

theorem package_members_messyPlugin :
    ∃ packed fs', package ⟨"p"⟩ messyOptions (messyPlugin "p") = .ok packed fs' ∧
      packed.members = messyArchive ∧
      ∃ paths : List (List String), paths.Nodup ∧
        (∀ r, r ∈ paths ↔ Belongs (messyPlugin "p") ["p"] ⟨"p"⟩ messyOptions "demo.zip" r) ∧
        List.Forall₂ (IsCopy (stripped ⟨"p"⟩ messyOptions (messyPlugin "p")) ⟨"p"⟩) paths
          packed.members := by
  have hwf : (messyPlugin "p").WellFormed :=
    FileSystem.wellFormed_of_keys (by decide +kernel) (by decide +kernel)
  have hread : Manifest.read (messyPlugin "p") ⟨"p"⟩ = .ok messyManifest :=
    eq_ok_of_toOption (by decide +kernel)
  have hroot : (messyPlugin "p").find true ⟨"p"⟩ = .ok (["p"], .directory 0o755) := by rfl
  obtain ⟨packed, fs', h, hmembers⟩ := exists_packed
    (by decide +kernel : packedMembers ⟨"p"⟩ messyOptions (messyPlugin "p") = some messyArchive)
  obtain ⟨paths, hnodup, hmem, hcopies, -⟩ := package_members hwf (by decide +kernel) hread hroot
    (unclaimed_messyPlugin (by decide)) h
  exact ⟨packed, fs', h, hmembers, paths, hnodup, hmem, hcopies⟩

/-- **When the root is a lone dash** the archive is empty, though the manifest belongs into it: the
walk takes the dash for something other than a directory. -/
theorem package_dash : packedMembers ⟨"-"⟩ messyOptions (messyPlugin "-") = some [] ∧
    Unclaimed (messyPlugin "-") ["-"] ⟨"-"⟩ "demo.zip" ∧
    Belongs (messyPlugin "-") ["-"] ⟨"-"⟩ messyOptions "demo.zip" ["manifest.json"] := by
  refine ⟨by decide +kernel, unclaimed_messyPlugin (by decide), ⟨_, rfl, rfl⟩, by decide,
    by decide, fun _ => by decide, fun _ n hn => ?_, by decide +kernel⟩
  obtain rfl := Option.some.inj hn
  decide

end Package

end PluginManager
