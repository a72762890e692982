import PluginManager.Proofs.Package.Arrangement

/-!
# Packaging again

A second run finds the archive of the first one, and nothing of what the first one has stripped.
The archive is emptied before anything is read, so both runs read the same.

* `Archive.parse_encode`: an archive is no JSON text, so the manifest is not read from it.
* `Sealed`: what packaging has left: what stripping left, and the archive.
* `Sealed.again`: **archives of the same** are the same.
* `sealed_again`: what is stripped in the second run is the archive, if anything.
* `sorted_packaging_is_reproducible`: **sorted packaging** depends on the entries only, and comes to
  the same when it is done again.
-/

namespace PluginManager

open FileSystem (Guides IsPlace Route SameEntries Shrinks)

variable {fs fs' s s' t t' : FileSystem} {k l out : Location} {root : Path} {archive : String}
  {order : FileSystem.Order} {members members' : List Member} {mode mode' : Nat} {r : List String}
  {existing : Option Nat}

/-! ## Archives are no documents -/

/-- No JSON text begins with the letter that begins a record. -/
theorem Json.exists_parse_eq_error (rest : Bytes) :
    ∃ cause, Json.parse (0x50 :: rest) = .error cause := by
  have hstart : (Cursor.start (0x50 :: rest)).skipBlanks = ⟨0x50 :: rest, 1, 0⟩ := rfl
  refine ⟨⟨.noValue, 1, 1⟩, ?_⟩
  rw [Json.parse, Json.readValue]
  simp only [hstart]
  rfl

theorem Archive.exists_encode_eq_cons (members : List Member) :
    ∃ rest, encode members = 0x50 :: rest := by
  cases members with
  | nil => exact ⟨_, rfl⟩
  | cons m rest => exact ⟨_, rfl⟩

/-- An archive is no JSON text. -/
theorem Archive.parse_encode (members : List Member) (document : Json) :
    Json.parse (encode members) ≠ .ok document := by
  obtain ⟨rest, hrest⟩ := exists_encode_eq_cons members
  obtain ⟨cause, hcause⟩ := Json.exists_parse_eq_error rest
  rw [hrest, hcause]
  exact nofun

namespace Package

variable {options : PackageOptions} {manifest manifest' : Manifest} {packed packed' : Packed}
  {dirs files : List String}

/-! ## What packaging leaves -/

/-- An archive with these members was written at the root of the plugin. -/
structure Sealed (s : FileSystem) (root : Path) (order : FileSystem.Order) (k : Location)
    (archive : String) (mode : Nat) (members : List Member) (t : FileSystem) : Prop where
  isName : IsName archive
  route : Route s (fun _ => True) root k
  directory : s.isDirectoryAt k = true
  existing : (s.lookup (k ++ [archive]) = none ∧ mode = FileSystem.newFileMode) ∨
    ∃ content, s.lookup (k ++ [archive]) = some (.file mode content)
  gathered : ∃ visits,
    (s.setContent (k ++ [archive]) mode []).walk order Archive.enters root = .ok visits ∧
      members = Archive.gather (s.setContent (k ++ [archive]) mode []) (k ++ [archive])
        (root.child archive).fileName? [] visits
  result : t = (s.setContent (k ++ [archive]) mode []).setContent (k ++ [archive]) mode
    (Archive.encode members)

/-- **Where the archive is written**: at the root, unless a link is there. -/
theorem place_of_writable {kmode : Nat} (hwf : s.WellFormed)
    (hroot : fs.find true root = .ok (k, .directory kmode)) (hshrinks : Shrinks fs s)
    (hfree : ∀ e, fs.lookup (k ++ [archive]) = some e → e.isFile = true) (hname : IsName archive)
    (hw : s.writable (root.child archive) = .ok (out, existing)) :
    Route s (fun _ => True) root k ∧ s.isDirectoryAt k = true ∧ out = k ++ [archive] := by
  obtain ⟨spot, hres, -, -, rfl, -⟩ := FileSystem.writable_eq_ok hw
  obtain ⟨k', hk', hroute⟩ := FileSystem.exists_route_of_resolve_child hwf hname hres
  obtain rfl := root_eq_of_route hroot (hroute.of_guides hshrinks.guides hk')
    (hshrinks.guides.directory _ hk')
  have hno : ∀ target, s.lookup (k' ++ [archive]) ≠ some (.link target) := by
    intro target htarget
    exact absurd (hfree _ (hshrinks.lookup _ _ htarget)) (by simp [Entry.isFile])
  obtain ⟨-, -, rfl⟩ := hroute.clear_of_resolve hk' (by simpa using hname) (by simp)
    (FileSystem.clear_singleton hk' archive).noLinks (.inr hno) hres
  exact ⟨hroute, hk', rfl⟩

theorem exists_sealed_of_package {kmode : Nat} (hwf : fs.WellFormed)
    (hm : Manifest.read fs root = .ok manifest)
    (hroot : fs.find true root = .ok (k, .directory kmode))
    (hfree : ∀ e, fs.lookup (k ++ [archiveName manifest.name options]) = some e → e.isFile = true)
    (h : package root options fs = .ok packed t) :
    packed.path = root.child (archiveName manifest.name options) ∧
    ∃ mode, Sealed (stripped root options fs) root (Package.order options) k
      (archiveName manifest.name options) mode packed.members t := by
  obtain ⟨manifest', hm', hone, -, hpath, hcreate⟩ := package_eq_ok h
  obtain rfl := Except.ok.inj (hm.symm.trans hm')
  have hshrinks := shrinks_stripped fs root options
  have hwf' := hshrinks.wellFormed hwf
  rw [hpath] at hcreate
  obtain ⟨out, existing, visits, hw, hwalk, hmembers, ht⟩ :=
    Archive.createArchive_eq_ok_iff.mp hcreate
  have hname := isName_of_writable hone hw
  obtain ⟨hroute, hk, rfl⟩ := place_of_writable hwf' hroot hshrinks hfree hname hw
  refine ⟨hpath, existing.getD FileSystem.newFileMode, hname, hroute, hk, ?_,
    ⟨visits, hwalk, hmembers⟩, ht⟩
  rcases FileSystem.existing_of_writable hw with ⟨he, rfl⟩ | ⟨mode, content, he, rfl⟩
  · exact .inl ⟨he, rfl⟩
  · exact .inr ⟨content, he⟩

namespace Sealed

theorem place (h : Sealed s root order k archive mode members t) :
    IsPlace s (k ++ [archive]) := ⟨k, archive, rfl, h.isName, h.directory⟩

theorem free (h : Sealed s root order k archive mode members t) {e : Entry}
    (he : s.lookup (k ++ [archive]) = some e) : e.isFile = true := by
  rcases h.existing with ⟨hnone, -⟩ | ⟨content, hfile⟩
  · exact absurd (hnone.symm.trans he) (by simp)
  · obtain rfl := Option.some.inj (hfile.symm.trans he)
    rfl

/-- The archive, when it has been begun. -/
theorem lookup_started (h : Sealed s root order k archive mode members t) (l : Location) :
    (s.setContent (k ++ [archive]) mode []).lookup l =
      if l = k ++ [archive] then some (.file mode []) else s.lookup l :=
  FileSystem.lookup_setContent s h.place.ne_nil mode [] l

theorem lookup (h : Sealed s root order k archive mode members t) (l : Location) :
    t.lookup l =
      if l = k ++ [archive] then some (.file mode (Archive.encode members)) else s.lookup l := by
  rw [h.result, FileSystem.lookup_setContent _ h.place.ne_nil, h.lookup_started]
  split <;> rfl

theorem wellFormed_started (h : Sealed s root order k archive mode members t)
    (hwf : s.WellFormed) : (s.setContent (k ++ [archive]) mode []).WellFormed :=
  FileSystem.wellFormed_setContent h.place (fun _ => h.free) hwf mode []

theorem guides_started (h : Sealed s root order k archive mode members t) :
    Guides s (s.setContent (k ++ [archive]) mode []) :=
  FileSystem.guides_setContent h.place (fun _ => h.free) mode []

theorem place_started (h : Sealed s root order k archive mode members t) :
    IsPlace (s.setContent (k ++ [archive]) mode []) (k ++ [archive]) :=
  ⟨k, archive, rfl, h.isName, h.guides_started.directory k h.directory⟩

theorem free_started (h : Sealed s root order k archive mode members t) {e : Entry}
    (he : (s.setContent (k ++ [archive]) mode []).lookup (k ++ [archive]) = some e) :
    e.isFile = true := by
  rw [h.lookup_started, if_pos rfl] at he
  obtain rfl := Option.some.inj he
  rfl

theorem wellFormed (h : Sealed s root order k archive mode members t) (hwf : s.WellFormed) :
    t.WellFormed := by
  rw [h.result]
  exact FileSystem.wellFormed_setContent h.place_started (fun _ => h.free_started)
    (h.wellFormed_started hwf) mode _

theorem guides (h : Sealed s root order k archive mode members t) : Guides s t := by
  rw [h.result]
  exact h.guides_started.trans
    (FileSystem.guides_setContent h.place_started (fun _ => h.free_started) mode _)

theorem guided (h : Sealed s root order k archive mode members t) : Guides t s := by
  rw [h.result]
  exact (FileSystem.guides_of_setContent h.place_started mode _).trans
    (FileSystem.guides_of_setContent h.place mode [])

/-- The plugin is still where it was. -/
theorem exists_find_root (h : Sealed s root order k archive mode members t)
    (hu : FileSystem.Usable root) : ∃ kmode, t.find true root = .ok (k, .directory kmode) := by
  obtain ⟨kmode, hkmode⟩ :=
    FileSystem.isDirectoryAt_iff.mp (h.guides.directory k h.directory)
  exact ⟨kmode, (h.route.of_guides h.guides h.directory).find_directory hu hkmode⟩

/-- **Archives of the same** are the same, whatever archive was there before. -/
theorem again (h : Sealed s root .sorted k archive mode members t)
    (h' : Sealed s' root .sorted k archive mode members' t') (hwf : s.WellFormed)
    (hwf' : s'.WellFormed) (hsame : ∀ l, l ≠ k ++ [archive] → s'.lookup l = s.lookup l)
    (hwd : s'.workingDirectory = s.workingDirectory) : members' = members ∧ SameEntries t t' := by
  have hstarted : SameEntries (s.setContent (k ++ [archive]) mode [])
      (s'.setContent (k ++ [archive]) mode []) := by
    refine ⟨fun l => ?_, hwd⟩
    rw [h.lookup_started, h'.lookup_started]
    split
    · rfl
    · rename_i hl
      exact hsame l hl
  obtain ⟨visits, hwalk, hmembers⟩ := h.gathered
  obtain ⟨visits', hwalk', hmembers'⟩ := h'.gathered
  rw [hstarted.walk_eq (h.wellFormed_started hwf) (h'.wellFormed_started hwf'), hwalk] at hwalk'
  obtain rfl := Except.ok.inj hwalk'
  have heq : members' = members := by
    rw [hmembers, hmembers']
    refine Archive.gather_congr fun v _ _ l mode content => ?_
    rw [hstarted.find_eq]
  refine ⟨heq, ?_⟩
  rw [h.result, h'.result, heq]
  exact hstarted.setContent h.place.ne_nil mode _

end Sealed

/-! ## The second run -/

/-- **The manifest is read again** from the same file, or not at all. -/
theorem name_eq_of_sealed (hm : Manifest.read fs root = .ok manifest) (hshrinks : Shrinks fs s)
    (h : Sealed s root order k archive mode members t)
    (hm' : Manifest.read t root = .ok manifest') : manifest'.name = manifest.name := by
  obtain ⟨l, fileMode, bytes, document, draft, hfind, hparse, hdraft, hname⟩ :=
    Manifest.exists_file_of_read hm
  obtain ⟨l', fileMode', bytes', document', draft', hfind', hparse', hdraft', hname'⟩ :=
    Manifest.exists_file_of_read hm'
  have he := FileSystem.lookup_of_find hfind'
  rw [h.lookup] at he
  split at he
  · obtain ⟨-, rfl⟩ := Entry.file.inj (Option.some.inj he)
    exact absurd hparse' (Archive.parse_encode members document')
  · have hbefore := FileSystem.find_of_guides (h.guided.trans hshrinks.guides) hfind'
      (hshrinks.lookup _ _ he) rfl
    obtain ⟨-, rfl⟩ := Entry.file.inj (Prod.mk.inj (Except.ok.inj (hfind.symm.trans hbefore))).2
    obtain rfl := Except.ok.inj (hparse.symm.trans hparse')
    obtain rfl := Except.ok.inj (hdraft.symm.trans hdraft')
    rw [hname, hname']

/-- Of what has been stripped only the archive can be there again. -/
theorem eq_archive_of_isDoomed (hs : Stripped fs k dirs files s) (hshrinks : Shrinks fs s)
    (h : Sealed s root order k archive mode members t) (hr : IsDoomed t k dirs files r) :
    r = [archive] := by
  by_contra hne
  obtain ⟨e, name, he, hname, hmem⟩ := hr.artifact
  rw [h.lookup, if_neg fun heq => hne (List.append_cancel_left heq)] at he
  have hdoomed : IsDoomed fs k dirs files r :=
    ⟨⟨e, name, hshrinks.lookup _ e he, hname, hmem⟩, hr.outside⟩
  rw [hs.gone r hdoomed _ (List.prefix_refl _)] at he
  exact absurd he (by simp)

/-- **Stripping again** takes away the archive, if anything, and then it had been taken away the
first time too. -/
theorem lookup_stripped_again (hwf : s.WellFormed) (hs : Stripped fs k dirs files s)
    (hshrinks : Shrinks fs s) (h : Sealed s root order k archive mode members t)
    (hs' : Stripped t k dirs files s') (hl : l ≠ k ++ [archive]) : s'.lookup l = s.lookup l := by
  by_cases hgone : ∃ r, IsDoomed t k dirs files r ∧ k ++ r <+: l
  · obtain ⟨r, hr, rest, rfl⟩ := hgone
    obtain rfl := eq_archive_of_isDoomed hs hshrinks h hr
    have hrest : rest ≠ [] := by
      rintro rfl
      exact hl (List.append_nil _)
    have hfile := FileSystem.isDirectoryAt_eq_false_of_file fun _ he => h.free he
    rw [hs'.gone _ hr _ (List.prefix_append _ rest), hwf.lookup_append_eq_none hrest hfile]
  · rw [hs'.changes.lookup l hgone, h.lookup, if_neg hl]

theorem mode_stripped_again (hs : Stripped fs k dirs files s) (hshrinks : Shrinks fs s)
    (h : Sealed s root order k archive mode members t) (hs' : Stripped t k dirs files s')
    (hshrinks' : Shrinks t s') (h' : Sealed s' root order k archive mode' members' t') :
    mode' = mode := by
  have harchive := h.lookup (k ++ [archive])
  rw [if_pos rfl] at harchive
  rcases h'.existing with ⟨hnone, rfl⟩ | ⟨content, hfile⟩
  · have hdoomed : IsDoomed t k dirs files [archive] := by
      by_contra hno
      rw [hs'.changes.lookup, harchive] at hnone
      · exact absurd hnone (by simp)
      · rintro ⟨r, hr, -⟩
        exact hno (eq_archive_of_isDoomed hs hshrinks h hr ▸ hr)
    obtain ⟨e, name, he, hname, hmem⟩ := hdoomed.artifact
    obtain rfl := Option.some.inj (harchive.symm.trans he)
    rcases h.existing with ⟨-, hmode⟩ | ⟨content, hfile⟩
    · exact hmode.symm
    · -- A file of that name would have been stripped in the first run too.
      have hbefore : IsDoomed fs k dirs files [archive] :=
        ⟨⟨_, name, hshrinks.lookup _ _ hfile, hname, hmem⟩, hdoomed.outside⟩
      rw [hs.gone _ hbefore _ (List.prefix_refl _)] at hfile
      exact absurd hfile (by simp)
  · have heq := (hshrinks'.lookup _ _ hfile).symm.trans harchive
    exact (Entry.file.inj (Option.some.inj heq)).1

/-- What the second run leaves is what the first one left, but for the archive. -/
theorem sealed_again (hwf : fs.WellFormed) (hm : Manifest.read fs root = .ok manifest)
    (hroot : fs.find true root = .ok (k, .directory mode'))
    (hfree : ∀ e, fs.lookup (k ++ [archiveName manifest.name options]) = some e → e.isFile = true)
    (h : package root options fs = .ok packed t) (h' : package root options t = .ok packed' t') :
    packed'.path = packed.path ∧ ∃ mode,
      Sealed (stripped root options fs) root (Package.order options) k
        (archiveName manifest.name options) mode packed.members t ∧
      Sealed (stripped root options t) root (Package.order options) k
        (archiveName manifest.name options) mode packed'.members t' ∧
      (stripped root options t).WellFormed ∧
      (∀ l, l ≠ k ++ [archiveName manifest.name options] →
        (stripped root options t).lookup l = (stripped root options fs).lookup l) := by
  have hshrinks := shrinks_stripped fs root options
  have hshrinks' := shrinks_stripped t root options
  have hwfs := hshrinks.wellFormed hwf
  have hu := FileSystem.usable_of_find hroot
  obtain ⟨hpath, mode, hsealed⟩ := exists_sealed_of_package hwf hm hroot hfree h
  have hwft := hsealed.wellFormed hwfs
  obtain ⟨manifest', hm', -⟩ := package_eq_ok h'
  have hname := name_eq_of_sealed hm hshrinks hsealed hm'
  obtain ⟨kmode, hroot'⟩ := hsealed.exists_find_root hu
  have hfree' : ∀ e, t.lookup (k ++ [archiveName manifest'.name options]) = some e →
      e.isFile = true := by
    intro e he
    rw [hname, hsealed.lookup, if_pos rfl] at he
    obtain rfl := Option.some.inj he
    rfl
  obtain ⟨hpath', mode', hsealed'⟩ := exists_sealed_of_package hwft hm' hroot' hfree' h'
  rw [hname] at hpath' hsealed'
  -- Where nothing is stripped, the archive of the first run is written over.
  have hkept : stripped root options fs = fs → stripped root options t = t →
      mode' = mode ∧ ∀ l, l ≠ k ++ [archiveName manifest.name options] →
        (stripped root options t).lookup l = (stripped root options fs).lookup l := by
    intro heq heq'
    refine ⟨?_, fun l hl => by rw [heq', hsealed.lookup, if_neg hl]⟩
    have harchive := hsealed.lookup (k ++ [archiveName manifest.name options])
    rw [if_pos rfl] at harchive
    have hexisting := hsealed'.existing
    rw [heq', harchive] at hexisting
    rcases hexisting with ⟨hnone, -⟩ | ⟨content, hfile⟩
    · exact absurd hnone (by simp)
    · exact (Entry.file.inj (Option.some.inj hfile)).1.symm
  have hboth : mode' = mode ∧ ∀ l, l ≠ k ++ [archiveName manifest.name options] →
      (stripped root options t).lookup l = (stripped root options fs).lookup l := by
    by_cases hdash : FileSystem.isDash root = true
    · exact hkept (stripped_of_isDash hdash options fs) (stripped_of_isDash hdash options t)
    · rw [Bool.not_eq_true] at hdash
      cases hs : options.strip with
      | false => exact hkept (stripped_of_not_strip hs) (stripped_of_not_strip hs)
      | true =>
        have hstripped := (exists_created_of_package hwf hdash hm hroot h).1 hs
        have hstripped' := (exists_created_of_package hwft hdash hm' hroot' h').1 hs
        exact ⟨mode_stripped_again hstripped hshrinks hsealed hstripped' hshrinks' hsealed',
          fun l hl => lookup_stripped_again hwfs hstripped hshrinks hsealed hstripped' hl⟩
  obtain ⟨rfl, hsame⟩ := hboth
  exact ⟨hpath'.trans hpath.symm, mode', hsealed, hsealed', hshrinks'.wellFormed hwft, hsame⟩

theorem packed_eq (hpath : packed'.path = packed.path)
    (hmembers : packed'.members = packed.members) : packed' = packed := by
  obtain ⟨path, members⟩ := packed
  obtain ⟨path', members'⟩ := packed'
  simp only at hpath hmembers
  rw [hpath, hmembers]

/-- **Sorted packaging is reproducible.**  The members come in the order of their ways, they do not
depend on the order in which the entries are listed, and a second run that succeeds makes the same
archive and changes nothing.  Without sorting the members are the same up to their order. -/
theorem sorted_packaging_is_reproducible (hwf : fs.WellFormed)
    (hm : Manifest.read fs root = .ok manifest) (hroot : fs.find true root = .ok (k, e))
    (hplace : Unclaimed fs k root (archiveName manifest.name options))
    (h : package root options fs = .ok packed t) :
    (options.sorted = true →
      (packed.members.map Member.way).Pairwise (· < ·) ∧
      (∀ fs', fs'.WellFormed → SameEntries fs fs' →
        ∃ t', package root options fs' = .ok packed t' ∧ SameEntries t t') ∧
      ∀ packed' t', package root options t = .ok packed' t' →
        packed' = packed ∧ ∀ l, t'.lookup l = t.lookup l) ∧
    ∀ fs' sorted, fs'.WellFormed → SameEntries fs fs' →
      ∃ packed' t', package root { options with sorted } fs' = .ok packed' t' ∧
        packed'.members.Perm packed.members := by
  obtain ⟨k', kmode, hdirectory⟩ := exists_root_of_read hwf hm
  obtain ⟨rfl, rfl⟩ : k' = k ∧ .directory kmode = e := by simpa [hroot] using hdirectory.symm
  constructor
  · intro hsorted
    have hpairwise := pairwise_way_of_package hwf hsorted h
    refine ⟨hpairwise, fun fs' hwf' hsame => ?_, fun packed' t' h' => ?_⟩
    · obtain ⟨packed', t', h', hpath, hperm, ht⟩ :=
        exists_package_of_sameEntries hwf hwf' hsame hm hroot hplace h options.sorted
      have heq := eq_of_perm_of_pairwise hperm hpairwise (pairwise_way_of_package hwf' hsorted h')
      have hpacked : packed' = packed := packed_eq hpath heq
      exact ⟨t', hpacked ▸ h', ht heq⟩
    · obtain ⟨hpath, mode, hsealed, hsealed', hwft, hsame⟩ :=
        sealed_again hwf hm hroot hplace.free h h'
      rw [show Package.order options = .sorted from if_pos hsorted] at hsealed hsealed'
      have hwd : (stripped root options t).workingDirectory =
          (stripped root options fs).workingDirectory := by
        rw [(shrinks_stripped t root options).workingDirectory, hsealed.guides.workingDirectory]
      obtain ⟨heq, ht⟩ := hsealed.again hsealed'
        ((shrinks_stripped fs root options).wellFormed hwf) hwft hsame hwd
      exact ⟨packed_eq hpath heq, ht.lookup⟩
  · intro fs' sorted hwf' hsame
    obtain ⟨packed', t', h', -, hperm, -⟩ :=
      exists_package_of_sameEntries hwf hwf' hsame hm hroot hplace h sorted
    exact ⟨packed', t', h', hperm⟩

/-- The plugin that lists its entries backwards. -/
def messyPluginBackwards : FileSystem :=
  { messyPlugin "p" with entries := (messyPlugin "p").entries.reverse }

theorem sorted_packaging_is_reproducible_messyPlugin :
    ∃ packed t, package ⟨"p"⟩ messyOptions (messyPlugin "p") = .ok packed t ∧
      packed.members = messyArchive ∧
      (messyArchive.map Member.way).Pairwise (· < ·) ∧
      (∃ t', package ⟨"p"⟩ messyOptions t = .ok packed t' ∧ ∀ l, t'.lookup l = t.lookup l) ∧
      ∃ packed' t', package ⟨"p"⟩ { messyOptions with sorted := false } messyPluginBackwards =
        .ok packed' t' ∧ packed'.members.Perm messyArchive := by
  have hwf : (messyPlugin "p").WellFormed :=
    FileSystem.wellFormed_of_keys (by decide +kernel) (by decide +kernel)
  have hwf' : messyPluginBackwards.WellFormed :=
    FileSystem.wellFormed_of_keys (by decide +kernel) (by decide +kernel)
  have hread : Manifest.read (messyPlugin "p") ⟨"p"⟩ = .ok messyManifest :=
    eq_ok_of_toOption (by decide +kernel)
  have hroot : (messyPlugin "p").find true ⟨"p"⟩ = .ok (["p"], .directory 0o755) := by rfl
  obtain ⟨packed, t, h, hmembers⟩ := exists_packed
    (by decide +kernel : packedMembers ⟨"p"⟩ messyOptions (messyPlugin "p") = some messyArchive)
  obtain ⟨hsorted, hlisted⟩ := sorted_packaging_is_reproducible hwf hread hroot
    (unclaimed_messyPlugin (by decide)) h
  obtain ⟨hpairwise, -, hagain⟩ := hsorted rfl
  have hleft : ((package ⟨"p"⟩ messyOptions).run (messyPlugin "p")).2 = t := by
    rw [Task.run, h]
  obtain ⟨ms, hms⟩ := Option.isSome_iff_exists.mp (by decide +kernel :
    (packedMembers ⟨"p"⟩ messyOptions
      ((package ⟨"p"⟩ messyOptions).run (messyPlugin "p")).2).isSome = true)
  rw [hleft] at hms
  obtain ⟨packed', t', h', -⟩ := exists_packed hms
  obtain ⟨rfl, hsame⟩ := hagain packed' t' h'
  obtain ⟨packed', t₁, h₁, hperm⟩ := hlisted messyPluginBackwards false hwf'
    (SameEntries.of_perm hwf (List.reverse_perm _))
  rw [hmembers] at hpairwise hperm
  exact ⟨_, t, h, hmembers, hpairwise, ⟨t', h', hsame⟩, packed', t₁, h₁, hperm⟩

end Package

end PluginManager
