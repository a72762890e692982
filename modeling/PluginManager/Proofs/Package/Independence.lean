import PluginManager.Proofs.FileSystem.Downward
import PluginManager.Proofs.FileSystem.SameBelow
import PluginManager.Proofs.Package.Frame

/-!
# An archive depends on the plugin only

Two file systems may have the same plugin in one place and differ everywhere else.  Its archive is
the same in both, as long as its links are followed through the plugin only: what a link leads to is
archived under the name of the link, wherever it lies.

* `SamePlugin`: the same plugin in two file systems.
* `Contained`: its links make no difference between the two.
* `packed_eq_of_samePlugin`: **the archives are the same**.
* `secret_is_archived`: a plugin with a link that leads out of it.
-/

namespace PluginManager

open FileSystem (Around Guides LooksUp Rooted SameBelow Shrinks)

variable {fs fs' g g' : FileSystem} {order : FileSystem.Order} {k l out : Location}
  {root : Path} {r : List String} {archive : String} {e : Entry}

/-! ## Gathering -/

namespace Archive

variable {outName : Option String} {done : List Member} {v : FileSystem.Visit}
  {visits : List FileSystem.Visit}

/-- The path leads to the same files in both file systems. -/
def SameFile (fs fs' : FileSystem) (p : Path) : Prop := ∀ l mode content,
  fs.find true p = .ok (l, .file mode content) ↔ fs'.find true p = .ok (l, .file mode content)

theorem member?_congr (h : v.entry.isDirectory = false → SameFile fs fs' v.path) :
    member? fs' out outName done v = member? fs out outName done v := by
  by_cases hd : v.entry.isDirectory = true
  · rw [member?, member?, hd, Bool.true_or, if_pos rfl, if_pos rfl]
  · rw [Bool.not_eq_true] at hd
    by_cases hfile : ∃ l mode content, fs.find true v.path = .ok (l, .file mode content)
    · obtain ⟨l, mode, content, hfind⟩ := hfile
      rw [member?, member?, hfind, (h hd l mode content).mp hfind]
    · have hnot : ∀ {fs}, (¬ ∃ l mode content,
          fs.find true v.path = .ok (l, .file mode content)) → isMember fs outName v = false := by
        intro fs hno
        rw [isMember, Bool.and_eq_false_iff]
        exact .inr (Bool.eq_false_iff.mpr fun hfile => hno (FileSystem.isFile_iff.mp hfile))
      rw [member?_of_not_isMember (hnot hfile), member?_of_not_isMember]
      refine hnot ?_
      rintro ⟨l, mode, content, hfind⟩
      exact hfile ⟨l, mode, content, (h hd l mode content).mpr hfind⟩

theorem gather_congr (h : ∀ v ∈ visits, v.entry.isDirectory = false → SameFile fs fs' v.path) :
    gather fs' out outName done visits = gather fs out outName done visits := by
  induction visits generalizing done with
  | nil => rfl
  | cons v rest ih =>
    have hrest : ∀ v ∈ rest, v.entry.isDirectory = false → SameFile fs fs' v.path :=
      fun v hv => h v (List.mem_cons_of_mem _ hv)
    rw [gather, gather, member?_congr (h v List.mem_cons_self)]
    split
    · exact ih hrest
    · exact ih hrest

/-- Of a lone dash nothing is archived. -/
theorem createArchive_of_isDash {t : FileSystem} {members : List Member}
    (hdash : FileSystem.isDash root = true)
    (h : createArchive root (root.child archive) order fs = .ok members t) : members = [] := by
  rw [createArchive] at h
  split at h
  · exact absurd h (by simp)
  · have hwalk : ∀ g : FileSystem, g.walk order enters root = .ok [] := fun g => by
      rw [FileSystem.walk, if_pos hdash]
    simp only [hwalk, gather, EStateM.Result.ok.injEq] at h
    exact h.1.symm

end Archive

/-! ## Two file systems with one plugin -/

/-- The path leads to the directory `k` in both file systems, and they have the same there and
below. -/
structure SamePlugin (order : FileSystem.Order) (fs fs' : FileSystem) (root : Path)
    (k : Location) : Prop where
  left : ∃ mode, fs.find true root = .ok (k, .directory mode)
  right : ∃ mode, fs'.find true root = .ok (k, .directory mode)
  below : SameBelow order k fs fs'

/-- No link of the plugin has anything looked up outside but the directories that lead to it.  And
none is given up in one of the file systems only: the path to the plugin takes as many links in
both, or none of its own links is given up at all. -/
structure Contained (fs fs' : FileSystem) (root : Path) (k : Location) : Prop where
  inside : ∀ r target, fs.lookup (k ++ r) = some (.link target) →
    ∀ m, LooksUp fs k r m → Around k m
  limit : (∀ n n', Rooted fs root k n → Rooted fs' root k n' → n = n') ∨
    ∀ r target, fs.lookup (k ++ r) = some (.link target) →
      fs.resolve true (root.descend r) ≠ .error .tooManyLinks ∧
        fs'.resolve true (root.descend r) ≠ .error .tooManyLinks

namespace Contained

theorem symm (h : Contained fs fs' root k) (hbelow : SameBelow order k fs fs')
    (hwf : fs.WellFormed) (hwf' : fs'.WellFormed) (hk : fs.isDirectoryAt k = true) :
    Contained fs' fs root k := by
  refine ⟨fun r target he m hm => ?_, h.limit.imp (fun hn n n' hr hr' => (hn n' n hr' hr).symm)
    fun hlinks r target he => (hlinks r target (by rw [← hbelow.lookup, he])).symm⟩
  have he' : fs.lookup (k ++ r) = some (.link target) := by rw [← hbelow.lookup, he]
  have hinside := h.inside r target he'
  exact hinside m (hm.of_alike fun m hm => hbelow.alike hwf hwf' hk (hinside m hm))

/-- Whatever the names in the plugin lead to, they stay around it. -/
theorem around (h : Contained fs fs' root k) (hg : Guides g fs) (hnames : ∀ n ∈ r, IsName n)
    (hclear : FileSystem.Clear g k r) {m : Location} (hm : LooksUp g k r m) : Around k m := by
  rcases hm.cases_of_clear hnames hclear with hin | ⟨target, htarget⟩
  · exact .inl hin
  · exact h.inside r target (hg.link _ _ htarget) m (hm.of_guides hg)

end Contained

/-- The plugin as it was in both file systems, and what became of it. -/
structure Versions (order : FileSystem.Order) (fs fs' : FileSystem) (root : Path) (k : Location)
    (g g' : FileSystem) : Prop where
  contained : Contained fs fs' root k
  wellFormed : g.WellFormed
  wellFormed' : g'.WellFormed
  guides : Guides g fs
  guides' : Guides g' fs'
  below : SameBelow order k g g'
  rooted : ∃ n, Rooted g root k n
  rooted' : ∃ n, Rooted g' root k n

namespace Versions

theorem start (hs : SamePlugin order fs fs' root k) (hc : Contained fs fs' root k)
    (hwf : fs.WellFormed) (hwf' : fs'.WellFormed) : Versions order fs fs' root k fs fs' := by
  have hrooted : ∀ {fs : FileSystem}, (∃ mode, fs.find true root = .ok (k, .directory mode)) →
      ∃ n, Rooted fs root k n := fun ⟨mode, hfind⟩ => (FileSystem.route_of_find hfind).exists_rooted
        (FileSystem.isDirectoryAt_of_lookup (FileSystem.lookup_of_find hfind))
  have hself : ∀ fs, Guides fs fs := fun fs => (Shrinks.refl fs).guides
  exact ⟨hc, hwf, hwf', hself fs, hself fs', hs.below, hrooted hs.left, hrooted hs.right⟩

theorem directory (h : Versions order fs fs' root k g g') : g.isDirectoryAt k = true := by
  obtain ⟨n, hn⟩ := h.rooted
  exact hn.directory

theorem alike (h : Versions order fs fs' root k g g') {m : Location} (hm : Around k m) :
    FileSystem.Alike g g' m := h.below.alike h.wellFormed h.wellFormed' h.directory hm

/-- Names in the plugin lead to the same place, unless they are given up. -/
theorem resolve_eq {last : Bool} {spot spot' : FileSystem.Spot}
    (h : Versions order fs fs' root k g g') (hnames : ∀ n ∈ r, IsName n) (hne : r ≠ [])
    (hclear : FileSystem.Clear g k r) (hres : g.resolve last (root.descend r) = .ok spot)
    (hres' : g'.resolve last (root.descend r) = .ok spot') :
    spot' = { spot with entry := g'.lookup spot.location } ∧ Around k spot.location := by
  obtain ⟨n, hn⟩ := h.rooted
  obtain ⟨n', hn'⟩ := h.rooted'
  have hinside : ∀ m, LooksUp g k r m → Around k m := fun m hm =>
    h.contained.around h.guides hnames hclear hm
  refine ⟨?_, hn.around_of_resolve hnames hne hinside hres⟩
  rcases hn.resolve_of_alike hn' hnames hne (fun m hm => h.alike (hinside m hm)) hres with
    hsame | ⟨-, hmany⟩
  · exact Except.ok.inj (hres'.symm.trans hsame)
  · exact absurd (hres'.symm.trans hmany) (by simp)

/-- A file that names in the plugin lead to is found in both. -/
theorem find_eq (h : Versions order fs fs' root k g g') (hnames : ∀ n ∈ r, IsName n) (hne : r ≠ [])
    (he : g.lookup (k ++ r) = some e) (hd : e.isDirectory = false) {mode : Nat} {content : Bytes}
    (hfind : g.find true (root.descend r) = .ok (l, .file mode content)) :
    g'.find true (root.descend r) = .ok (l, .file mode content) := by
  obtain ⟨n, hn⟩ := h.rooted
  obtain ⟨n', hn'⟩ := h.rooted'
  have hclear : FileSystem.Clear g k r := h.wellFormed.clear (by simp [he])
  have he' : g'.lookup (k ++ r) = some e := by rw [h.below.lookup, he]
  rcases hn.find_of_alike hn' hnames hne
    (fun m hm => h.contained.around h.guides hnames hclear hm) (fun m hm => h.alike hm) rfl hfind
    with hsame | ⟨hdiffer, hmany⟩
  · exact hsame
  · have hu := FileSystem.usable_of_find hfind
    exfalso
    by_cases hlink : ∃ target, e = .link target
    · obtain ⟨target, rfl⟩ := hlink
      rcases h.contained.limit with hsame | hlinks
      · exact hdiffer (hsame n n' (hn.of_guides h.guides) (hn'.of_guides h.guides'))
      · exact (hlinks r target (h.guides.link _ _ he)).2
          (hn'.tooManyLinks_of_guides h.guides' hnames hne hu hmany)
    · have hno : ∀ {g : FileSystem}, g.lookup (k ++ r) = some e →
          ∀ target, g.lookup (k ++ r) ≠ some (.link target) := fun he target htarget =>
        hlink ⟨target, Option.some.inj (he.symm.trans htarget)⟩
      obtain ⟨hfits, -⟩ :=
        hn.route.fits_of_find hn.directory hnames hne hclear (.inr (hno he)) hfind
      have harrives := hn'.route.resolve_descend hn'.directory hnames hne
        (h.wellFormed'.clear (by simp [he'])) hfits (.inr (hno he') : true = false ∨ _)
      exact absurd (harrives.symm.trans hmany) (by simp)

theorem symm (h : Versions order fs fs' root k g g') (hsame : SamePlugin order fs fs' root k)
    (hwf : fs.WellFormed) (hwf' : fs'.WellFormed) : Versions order fs' fs root k g' g :=
  ⟨h.contained.symm hsame.below hwf hwf' (h.guides.directory k h.directory), h.wellFormed',
    h.wellFormed, h.guides', h.guides, h.below.symm, h.rooted', h.rooted⟩

/-- What stripping leaves of the plugin. -/
theorem of_shrinks {s s' : FileSystem} (h : Versions order fs fs' root k g g') (hs : Shrinks g s)
    (hs' : Shrinks g' s') (hbelow : SameBelow order k s s') (hrooted : ∃ n, Rooted s root k n)
    (hrooted' : ∃ n, Rooted s' root k n) : Versions order fs fs' root k s s' :=
  ⟨h.contained, hs.wellFormed h.wellFormed, hs'.wellFormed h.wellFormed', hs.guides.trans h.guides,
    hs'.guides.trans h.guides', hbelow, hrooted, hrooted'⟩

/-- A file that is written in the plugin. -/
theorem setContent (h : Versions order fs fs' root k g g')
    (hplace : FileSystem.IsPlace g (k ++ r)) (hplace' : FileSystem.IsPlace g' (k ++ r))
    (hfree : ∀ e, g.lookup (k ++ r) = some e → e.isFile = true) (mode : Nat) (content : Bytes) :
    Versions order fs fs' root k (g.setContent (k ++ r) mode content)
      (g'.setContent (k ++ r) mode content) := by
  have hfree' : ∀ e, g'.lookup (k ++ r) = some e → e.isFile = true := fun e he =>
    hfree e (by rw [← h.below.lookup, he])
  obtain ⟨n, hn⟩ := h.rooted
  obtain ⟨n', hn'⟩ := h.rooted'
  exact ⟨h.contained, FileSystem.wellFormed_setContent hplace hfree h.wellFormed mode content,
    FileSystem.wellFormed_setContent hplace' hfree' h.wellFormed' mode content,
    (FileSystem.guides_of_setContent hplace mode content).trans h.guides,
    (FileSystem.guides_of_setContent hplace' mode content).trans h.guides',
    h.below.setContent hplace.ne_nil mode content,
    ⟨n, hn.of_guides (FileSystem.guides_setContent hplace hfree mode content)⟩,
    ⟨n', hn'.of_guides (FileSystem.guides_setContent hplace' hfree' mode content)⟩⟩

end Versions

/-! ## Archives -/

namespace Archive

variable {t t' : FileSystem} {members members' : List Member}

/-- The archive stands in the same place in both file systems. -/
theorem place_eq {existing existing' : Option Nat} {out' : Location}
    (h : Versions order fs fs' root k g g') (hname : IsName archive)
    (hw : g.writable (root.child archive) = .ok (out, existing))
    (hw' : g'.writable (root.child archive) = .ok (out', existing')) :
    out' = out ∧ existing' = existing ∧ ∃ r, out = k ++ r := by
  have hnames : ∀ n ∈ [archive], IsName n := by simpa using hname
  obtain ⟨spot, hres, -, -, hlocation, -⟩ := FileSystem.writable_eq_ok hw
  obtain ⟨spot', hres', -⟩ := FileSystem.writable_eq_ok hw'
  obtain ⟨rfl, haround⟩ := h.resolve_eq hnames (List.cons_ne_nil _ [])
    (FileSystem.clear_singleton h.directory archive) hres hres'
  have hin : k <+: spot.location := by
    rcases haround with hin | ⟨r, hr⟩
    · exact hin
    · -- What leads to the plugin is a directory, and that is not written to.
      by_cases hnil : r = []
      · have hsame : spot.location = k := by rw [← hr, hnil, List.append_nil]
        exact hsame ▸ List.prefix_refl k
      · have hd := h.wellFormed.isDirectoryAt hnil
          (by rw [hr]; exact FileSystem.lookup_ne_none h.directory)
        obtain ⟨mode, hmode⟩ := FileSystem.isDirectoryAt_iff.mp hd
        have hfile := (FileSystem.exists_of_writable h.wellFormed hw).2 _ (hlocation ▸ hmode)
        exact absurd hfile Bool.false_ne_true
  obtain ⟨r, hr⟩ := hin
  have hentry : g'.lookup spot.location = spot.entry := by
    rw [(FileSystem.reaches_of_resolve hres).entry_eq, ← hr, h.below.lookup]
  rw [hentry] at hres'
  have hsame : g'.writable (root.child archive) = g.writable (root.child archive) := by
    rw [FileSystem.writable, FileSystem.writable, hres, hres']
  obtain ⟨rfl, rfl⟩ : out = out' ∧ existing = existing' := by
    simpa [hw, hw'] using hsame.symm
  exact ⟨rfl, rfl, r, by rw [hr]; exact hlocation.symm⟩

/-- **The members are the same**, in the same order. -/
theorem members_eq (h : Versions order fs fs' root k g g') (hs : SamePlugin order fs fs' root k)
    (hwf : fs.WellFormed) (hwf' : fs'.WellFormed) (hone : Package.isOneComponent archive = true)
    (hc : createArchive root (root.child archive) order g = .ok members t)
    (hc' : createArchive root (root.child archive) order g' = .ok members' t') :
    members' = members := by
  by_cases hdash : FileSystem.isDash root = true
  · rw [createArchive_of_isDash hdash hc, createArchive_of_isDash hdash hc']
  · rw [Bool.not_eq_true] at hdash
    obtain ⟨mode, hfind⟩ := hs.left
    obtain ⟨mode', hfind'⟩ := hs.right
    obtain ⟨k₁, out, fileMode, hg⟩ := exists_gathered_of_createArchive h.wellFormed hdash
      (FileSystem.usable_of_find hfind) hone hc
    obtain ⟨k₂, out', fileMode', hg'⟩ := exists_gathered_of_createArchive h.wellFormed' hdash
      (FileSystem.usable_of_find hfind') hone hc'
    obtain rfl := Package.root_eq_of_route hfind (hg.route.of_guides h.guides hg.directory)
      (h.guides.directory _ hg.directory)
    obtain rfl := Package.root_eq_of_route hfind' (hg'.route.of_guides h.guides' hg'.directory)
      (h.guides'.directory _ hg'.directory)
    obtain ⟨existing, hwritable, rfl⟩ := hg.writable
    obtain ⟨existing', hwritable', rfl⟩ := hg'.writable
    obtain ⟨rfl, rfl, r, rfl⟩ := place_eq h hg.isName hwritable hwritable'
    obtain ⟨hplace, hfree⟩ := FileSystem.exists_of_writable h.wellFormed hwritable
    have hplace' := (FileSystem.exists_of_writable h.wellFormed' hwritable').1
    have hbegun := h.setContent hplace hplace' hfree (existing'.getD FileSystem.newFileMode) []
    have hwalk := hbegun.below.walkBelow_eq (r := []) hbegun.wellFormed hbegun.wellFormed' enters
      root [] (FileSystem.shallow_height _ _) (FileSystem.shallow_height _ _)
    rw [List.append_nil] at hwalk
    rw [hg'.gathered, hg.gathered, hwalk]
    refine gather_congr fun v hv hd l mode content => ?_
    obtain ⟨r, e, hne, he, rfl, -⟩ := (FileSystem.mem_walk hbegun.wellFormed).mp hv
    have hnames : ∀ n ∈ r, IsName n := fun n hn =>
      hbegun.wellFormed.isName (Option.ne_none_iff_exists'.mpr ⟨e, he⟩) n
        (List.mem_append_right _ hn)
    exact ⟨hbegun.find_eq hnames hne he hd,
      (hbegun.symm hs hwf hwf').find_eq hnames hne (by rw [hbegun.below.lookup, he]) hd⟩

end Archive

/-! ## Packaging -/

namespace Package

variable {options : PackageOptions} {dirs files : List String} {s s' t t' : FileSystem}
  {packed packed' : Packed} {manifest manifest' : Manifest}

theorem name_eq (h : Versions order fs fs' root k fs fs')
    (hm : Manifest.read fs root = .ok manifest) (hm' : Manifest.read fs' root = .ok manifest') :
    manifest'.name = manifest.name := by
  obtain ⟨l, mode, bytes, document, draft, hfind, hparse, hdraft, hname⟩ :=
    Manifest.exists_file_of_read hm
  obtain ⟨l', mode', bytes', document', draft', hfind', hparse', hdraft', hname'⟩ :=
    Manifest.exists_file_of_read hm'
  obtain ⟨n, hn⟩ := h.rooted
  obtain ⟨n', hn'⟩ := h.rooted'
  have hnames : ∀ n ∈ [manifestName], IsName n := by decide
  have hclear := FileSystem.clear_singleton h.directory manifestName
  have hbytes : bytes' = bytes := by
    rcases hn.find_of_alike hn' hnames (List.cons_ne_nil _ [])
      (fun m hm => h.contained.around h.guides hnames hclear hm) (fun m hm => h.alike hm) rfl hfind
      with hsame | ⟨-, hmany⟩
    · have hboth := Except.ok.inj (hfind'.symm.trans hsame)
      simp only [Prod.mk.injEq, Entry.file.injEq] at hboth
      exact hboth.2.2
    · obtain ⟨spot, hres, -⟩ := FileSystem.find_eq_ok_iff.mp hfind'
      exact absurd (hres.symm.trans hmany) (by simp)
  rw [hbytes] at hparse'
  obtain rfl := Except.ok.inj (hparse.symm.trans hparse')
  obtain rfl := Except.ok.inj (hdraft.symm.trans hdraft')
  rw [hname, hname']

theorem isDoomed_congr (h : SameBelow order k fs fs') :
    IsDoomed fs' k dirs files r ↔ IsDoomed fs k dirs files r := by
  constructor
  · rintro ⟨⟨e, name, he, hrest⟩, houtside⟩
    exact ⟨⟨e, name, by rw [← h.lookup, he], hrest⟩, houtside⟩
  · rintro ⟨⟨e, name, he, hrest⟩, houtside⟩
    exact ⟨⟨e, name, by rw [h.lookup, he], hrest⟩, houtside⟩

/-- Stripping leaves the same of the same plugin, in the same order. -/
theorem sameBelow_of_stripped (h : SameBelow order k fs fs') (hwf : fs.WellFormed)
    (hwf' : fs'.WellFormed) (hs : Stripped fs k dirs files s) (hs' : Stripped fs' k dirs files s')
    (hsub : s.entries.Sublist fs.entries) (hsub' : s'.entries.Sublist fs'.entries) :
    SameBelow order k s s' := by
  have hlookup : ∀ r, s'.lookup (k ++ r) = s.lookup (k ++ r) := by
    intro r
    by_cases hgone : ∃ pre, IsDoomed fs k dirs files pre ∧ k ++ pre <+: k ++ r
    · obtain ⟨pre, hdoomed, hpre⟩ := hgone
      rw [hs.gone pre hdoomed _ hpre, hs'.gone pre ((isDoomed_congr h).mpr hdoomed) _ hpre]
    · have hstays : ¬ ∃ pre, IsDoomed fs' k dirs files pre ∧ k ++ pre <+: k ++ r := by
        simpa only [isDoomed_congr h] using hgone
      rw [hs.changes.lookup _ hgone, hs'.changes.lookup _ hstays, h.lookup]
  refine ⟨hlookup, fun ho r => ?_⟩
  rw [FileSystem.names_of_sublist hsub' hwf', FileSystem.names_of_sublist hsub hwf, h.names ho]
  congr 1
  funext name
  rw [List.append_assoc, hlookup]

theorem sublist_stripped (fs : FileSystem) (root : Path) (options : PackageOptions) :
    (stripped root options fs).entries.Sublist fs.entries :=
  stripped_of_leaves (R := fun s => s.entries.Sublist fs.entries) (List.Sublist.refl _)
    (leaves_stripArtifacts_of_walk (List.Sublist.refl _) fun _ _ =>
      FileSystem.sublist_of_removeAlls fs _)

theorem stripped_of_isDash (hdash : FileSystem.isDash root = true) (options : PackageOptions)
    (fs : FileSystem) : stripped root options fs = fs := by
  have hstrip : stripArtifacts root options.stripDirs options.stripFiles fs = .ok [] fs := by
    rw [stripArtifacts, FileSystem.walk, if_pos hdash]
    rfl
  rw [stripped, Task.run, hstrip]
  split <;> rfl

/-- What stripping leaves of one plugin in two file systems. -/
theorem versions_stripped (hwf : fs.WellFormed) (hwf' : fs'.WellFormed)
    (hs : SamePlugin order fs fs' root k) (hc : Contained fs fs' root k)
    (h : package root options fs = .ok packed t) (h' : package root options fs' = .ok packed' t') :
    Versions order fs fs' root k (stripped root options fs) (stripped root options fs') := by
  have hstart := Versions.start hs hc hwf hwf'
  by_cases hdash : FileSystem.isDash root = true
  · rwa [stripped_of_isDash hdash, stripped_of_isDash hdash]
  · rw [Bool.not_eq_true] at hdash
    obtain ⟨mode, hroot⟩ := hs.left
    obtain ⟨mode', hroot'⟩ := hs.right
    obtain ⟨manifest, hm, -⟩ := package_eq_ok h
    obtain ⟨manifest', hm', -⟩ := package_eq_ok h'
    obtain ⟨hstrip, -, _, _, _, hcreated⟩ := exists_created_of_package hwf hdash hm hroot h
    obtain ⟨hstrip', -, _, _, _, hcreated'⟩ := exists_created_of_package hwf' hdash hm' hroot' h'
    refine hstart.of_shrinks (shrinks_stripped fs root options) (shrinks_stripped fs' root options)
      ?_ (hcreated.route.exists_rooted hcreated.directory)
      (hcreated'.route.exists_rooted hcreated'.directory)
    cases hoptions : options.strip with
    | true =>
      exact sameBelow_of_stripped hs.below hwf hwf' (hstrip hoptions) (hstrip' hoptions)
        (sublist_stripped fs root options) (sublist_stripped fs' root options)
    | false =>
      rw [stripped_of_not_strip hoptions, stripped_of_not_strip hoptions]
      exact hs.below

/-- **The archive depends on the plugin only**: where two file systems have the same plugin, and its
links make no difference between them, its archives are the same, and so are those that are made
without the rest of packaging. -/
theorem packed_eq_of_samePlugin (hwf : fs.WellFormed) (hwf' : fs'.WellFormed)
    (hs : SamePlugin order fs fs' root k) (hc : Contained fs fs' root k) :
    (∀ options packed packed' t t', Package.order options = order →
      package root options fs = .ok packed t → package root options fs' = .ok packed' t' →
        packed' = packed) ∧
    ∀ archive members members' t t', isOneComponent archive = true →
      Archive.createArchive root (root.child archive) order fs = .ok members t →
      Archive.createArchive root (root.child archive) order fs' = .ok members' t' →
        members' = members := by
  have hstart := Versions.start hs hc hwf hwf'
  refine ⟨fun options packed packed' t t' horder h h' => ?_,
    fun archive members members' t t' hone h h' =>
      Archive.members_eq hstart hs hwf hwf' hone h h'⟩
  obtain ⟨manifest, hm, hone, -, hpath, hcreate⟩ := package_eq_ok h
  obtain ⟨manifest', hm', -, -, hpath', hcreate'⟩ := package_eq_ok h'
  have hname := name_eq hstart hm hm'
  rw [horder, hpath] at hcreate
  rw [horder, hpath', hname] at hcreate'
  have hmembers := Archive.members_eq (versions_stripped hwf hwf' hs hc h h') hs hwf hwf' hone
    hcreate hcreate'
  obtain ⟨path, members⟩ := packed
  obtain ⟨path', members'⟩ := packed'
  simp only at hpath hpath' hmembers
  rw [hpath, hpath', hname, hmembers]

/-- A plugin with a link to `target`, next to a secret. -/
def linkingPlugin (target : String) (secret : Bytes) : FileSystem where
  entries :=
    [(["secret"], .file 0o600 secret), (["p"], .directory 0o755), (["p", "x"], .directory 0o755),
      (["p", "x", "plugin.py"], .file 0o644 []), (["p", "x", "again.py"], .link ⟨target⟩),
      (["p", "manifest.json"], .file 0o644
        (Text.encode "[\"demo\",\"acme\",null,[[\"x\",\"backend\"]]]"))]
  times := []
  clock := 0
  workingDirectory := []

theorem samePlugin_linkingPlugin (target : String) (secret secret' : Bytes) :
    SamePlugin .sorted (linkingPlugin target secret) (linkingPlugin target secret') ⟨"p"⟩
      ["p"] := by
  refine ⟨⟨0o755, rfl⟩, ⟨0o755, rfl⟩, fun r => ?_, fun ho => absurd ho (by decide)⟩
  simp [FileSystem.lookup, linkingPlugin, List.lookup_cons]

/-- The link that leads to what is next to it is followed in the plugin. -/
theorem contained_linkingPlugin :
    Contained (linkingPlugin "plugin.py" [1]) (linkingPlugin "plugin.py" [2]) ⟨"p"⟩ ["p"] := by
  have hkeys : ∀ l ∈ (linkingPlugin "plugin.py" [1]).entries.map Prod.fst,
      ((linkingPlugin "plugin.py" [1]).lookup l).any Entry.isLink = true →
        l = ["p", "x", "again.py"] := by
    decide +kernel
  have honly : ∀ r target, (linkingPlugin "plugin.py" [1]).lookup (["p"] ++ r) =
      some (.link target) → r = ["x", "again.py"] := by
    intro r target he
    have hkey := (FileSystem.mem_keys (by simp)).mpr (Option.ne_none_iff_exists'.mpr ⟨_, he⟩)
    simpa using hkeys _ hkey (by rw [he]; rfl)
  have hdirectory : (linkingPlugin "plugin.py" [1]).lookup ["p", "x"] =
      some (.directory 0o755) := rfl
  have hfile : (linkingPlugin "plugin.py" [1]).lookup ["p", "x", "plugin.py"] =
      some (.file 0o644 []) := rfl
  have hsteps : FileSystem.steps ⟨"plugin.py"⟩ = ["plugin.py"] := IsName.steps (by decide)
  have hrelative : (Path.mk "plugin.py").isAbsolute = false := by decide
  have hin : ∀ r, Around ["p"] (["p"] ++ r) := fun r => .inl (List.prefix_append _ r)
  refine ⟨fun r target he m hm => ?_, .inr fun r target he => ?_⟩
  · obtain rfl := honly r target he
    rcases hm.of_cons (by decide) with rfl | ⟨-, hm⟩ | ⟨target, htarget, -⟩
    · exact hin ["x"]
    · rcases hm.of_cons (by decide) with rfl | ⟨hd, -⟩ | ⟨target, htarget, hm⟩
      · exact hin ["x", "again.py"]
      · exact absurd hd (by decide)
      · obtain rfl : (⟨"plugin.py"⟩ : Path) = target := Entry.link.inj (Option.some.inj htarget)
        rw [hsteps, hrelative, if_neg Bool.false_ne_true] at hm
        rcases LooksUp.of_cons (by decide) hm with rfl | ⟨hd, -⟩ | ⟨target, htarget, -⟩
        · exact hin ["x", "plugin.py"]
        · exact absurd hd (by decide)
        · exact absurd (hfile.symm.trans htarget) (by simp)
    · exact absurd (hdirectory.symm.trans htarget) (by simp)
  · obtain rfl := honly r target he
    have hfound : ∀ secret ∈ [[1], [2]], ((linkingPlugin "plugin.py" secret).resolve true
        ((Path.mk "p").descend ["x", "again.py"])).toOption.isSome = true := by
      decide +kernel
    have hnever : ∀ secret ∈ [[1], [2]], (linkingPlugin "plugin.py" secret).resolve true
        ((Path.mk "p").descend ["x", "again.py"]) ≠ .error .tooManyLinks := by
      intro secret hsecret hmany
      have hsome := hfound secret hsecret
      rw [hmany] at hsome
      exact absurd hsome (by decide)
    exact ⟨hnever [1] (by simp), hnever [2] (by simp)⟩

def linkingMembers : List Member :=
  [⟨"manifest.json", 0o100644, Text.encode "[\"demo\",\"acme\",null,[[\"x\",\"backend\"]]]"⟩,
    ⟨"x/again.py", 0o100644, []⟩, ⟨"x/plugin.py", 0o100644, []⟩]

theorem packed_eq_linkingPlugin : ∃ packed t t',
    package ⟨"p"⟩ messyOptions (linkingPlugin "plugin.py" [1]) = .ok packed t ∧
      package ⟨"p"⟩ messyOptions (linkingPlugin "plugin.py" [2]) = .ok packed t' ∧
      packed.members = linkingMembers := by
  have hwf : (linkingPlugin "plugin.py" [1]).WellFormed :=
    FileSystem.wellFormed_of_keys (by decide +kernel) (by decide +kernel)
  have hwf' : (linkingPlugin "plugin.py" [2]).WellFormed :=
    FileSystem.wellFormed_of_keys (by decide +kernel) (by decide +kernel)
  obtain ⟨packed, t, h, hmembers⟩ := exists_packed (by decide +kernel :
    packedMembers ⟨"p"⟩ messyOptions (linkingPlugin "plugin.py" [1]) = some linkingMembers)
  obtain ⟨packed', t', h', -⟩ := exists_packed (by decide +kernel :
    packedMembers ⟨"p"⟩ messyOptions (linkingPlugin "plugin.py" [2]) = some linkingMembers)
  have heq := (packed_eq_of_samePlugin hwf hwf' (samePlugin_linkingPlugin "plugin.py" [1] [2])
    contained_linkingPlugin).1 messyOptions packed packed' t t' rfl h h'
  exact ⟨packed, t, t', h, heq ▸ h', hmembers⟩

/-- **A secret is archived**: the file that a link of the plugin leads to, though it is not in the
plugin. -/
theorem secret_is_archived :
    SamePlugin .sorted (linkingPlugin "../../secret" [1]) (linkingPlugin "../../secret" [2]) ⟨"p"⟩
        ["p"] ∧
      (packedMembers ⟨"p"⟩ messyOptions (linkingPlugin "../../secret" [1])).map
          (List.map Member.content) ≠
        (packedMembers ⟨"p"⟩ messyOptions (linkingPlugin "../../secret" [2])).map
          (List.map Member.content) :=
  ⟨samePlugin_linkingPlugin _ [1] [2], by decide +kernel⟩

end Package

end PluginManager
