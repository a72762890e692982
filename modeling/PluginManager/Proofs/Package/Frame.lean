import PluginManager.Proofs.Package.Contents

/-!
# What packaging leaves alone

Packaging removes artifacts and writes an archive.  The artifacts lie inside the plugin.  The
archive does too, unless a link stands in its place: that is followed, and what it leads to is
overwritten.

* `leaves_createArchive`: an archive is written to one place, whatever comes of it.
* `archive_place_of_writable`: where the archive goes.
* `Touches`: where packaging may change something.
* `leaves_pack`: packing keeps what writing to that place keeps.
* `leaves_package`: **nothing else is different**, whatever comes of packaging.
* `archive_is_written_elsewhere`: a plugin that has a link in the place of its archive.
-/

namespace PluginManager

variable {fs fs' : FileSystem} {k l : Location} {root out : Path} {e : Entry}

/-! ## Writing -/

theorem FileSystem.staysIn_setContent (fs : FileSystem) (hl : l ≠ []) (mode : Nat)
    (content : Bytes) : StaysIn (· = l) fs (fs.setContent l mode content) :=
  (staysIn_insert fs hl _).trans (staysIn_touchAt _ l _)

/-- Whatever comes of it, an archive is written to the place its path leads to. -/
theorem Archive.leaves_createArchive {order : FileSystem.Order} (hwf : fs.WellFormed) :
    Task.Leaves (createArchive root out order) fs fun fs' => fs' = fs ∨
      ∃ x, fs.writable out = .ok x ∧ FileSystem.StaysIn (· = x.1) fs fs' := by
  cases hwritable : fs.writable out with
  | error cause =>
    constructor
    · intro members fs' h
      rw [createArchive, hwritable] at h
      exact absurd h (by simp)
    · intro e fs' h
      rw [createArchive, hwritable] at h
      obtain ⟨-, rfl⟩ : _ = e ∧ fs = fs' := by simpa using h
      exact .inl rfl
  | ok x =>
    obtain ⟨l, existing⟩ := x
    have hl := (FileSystem.exists_of_writable hwf hwritable).1.ne_nil
    have hwritten : ∀ mode content,
        FileSystem.StaysIn (· = l) fs ((fs.setContent l mode []).setContent l mode content) :=
      fun mode content => (FileSystem.staysIn_setContent fs hl mode []).trans
        (FileSystem.staysIn_setContent _ hl mode content)
    constructor
    · intro members fs' h
      rw [createArchive, hwritable] at h
      simp only at h
      split at h
      · exact absurd h (by simp)
      · obtain ⟨-, rfl⟩ : _ ∧ _ = fs' := by simpa using h
        exact .inr ⟨_, rfl, hwritten _ _⟩
    · intro e fs' h
      rw [createArchive, hwritable] at h
      simp only at h
      split at h
      · obtain ⟨-, rfl⟩ : _ ∧ _ = fs' := by simpa using h
        exact .inr ⟨_, rfl, hwritten _ _⟩
      · exact absurd h (by simp)

namespace Package

open FileSystem (Route Shrinks ChangesOnly)

variable {options : PackageOptions} {manifest : Manifest}

/-! ## The root -/

theorem root_eq_of_route {mode : Nat} (hroot : fs.find true root = .ok (k, .directory mode))
    (hroute : Route fs (fun _ => True) root l) (hl : fs.isDirectoryAt l = true) : l = k := by
  obtain ⟨mode', hmode'⟩ := FileSystem.isDirectoryAt_iff.mp hl
  have hfind := hroute.find_directory (FileSystem.usable_of_find hroot) hmode'
  rw [hroot] at hfind
  exact (Prod.mk.inj (Except.ok.inj hfind)).1.symm

/-- A plugin with a manifest is a directory. -/
theorem exists_root_of_read (hwf : fs.WellFormed) (hm : Manifest.read fs root = .ok manifest) :
    ∃ k mode, fs.find true root = .ok (k, .directory mode) := by
  obtain ⟨-, k, e, hroot, -⟩ := Manifest.exists_of_read hm
  have hmanifest : ∃ spot, fs.resolve true (root.child manifestName) = .ok spot := by
    rw [Manifest.read, readDocument, FileSystem.readFile] at hm
    cases hfind : fs.find true (manifestPath root) with
    | error cause => simp [hfind] at hm
    | ok x =>
      obtain ⟨spot, hres, -⟩ := FileSystem.find_eq_ok_iff.mp hfind
      exact ⟨spot, hres⟩
  obtain ⟨spot, hres⟩ := hmanifest
  obtain ⟨k', hk', hroute⟩ :=
    FileSystem.exists_route_of_resolve_child hwf (by decide) hres
  obtain ⟨mode, hmode⟩ := FileSystem.isDirectoryAt_iff.mp hk'
  exact ⟨k', mode, hroute.find_directory (FileSystem.usable_of_find hroot) hmode⟩

/-! ## Where something may change -/

/-- Packaging may change something in the plugin, and where a link leads that stands in the place of
the archive: there it writes a file, where there is one or nothing yet. -/
inductive Touches (fs : FileSystem) (root : Path) (options : PackageOptions) : Location → Prop
  | inside {k l : Location} {e : Entry} : fs.find true root = .ok (k, e) → k <+: l →
      Touches fs root options l
  | linked {k l : Location} {e : Entry} {manifest : Manifest} {target : Path} :
      fs.find true root = .ok (k, e) → Manifest.read fs root = .ok manifest →
      fs.lookup (k ++ [archiveName manifest.name options]) = some (.link target) →
      (∃ spot, fs.resolve true (root.child (archiveName manifest.name options)) = .ok spot ∧
        spot.location = l) →
      (∀ e', fs.lookup l = some e' → e'.isFile = true) → Touches fs root options l

/-- The place of the archive, in what stripping has left, where that is as it was: the name of the
archive in the root, or where the link leads that has this name. -/
theorem archive_place_of_writable {mode : Nat} {archive : String} {x : Location × Option Nat}
    (hwf : fs.WellFormed) (hroot : fs.find true root = .ok (k, .directory mode))
    (hone : isOneComponent archive = true) (hshrinks : Shrinks fs fs')
    (hwritable : fs'.writable (root.child archive) = .ok x)
    (hsame : fs'.lookup x.1 = fs.lookup x.1) :
    (∀ e, fs.lookup x.1 = some e → e.isFile = true) ∧
      (x.1 = k ++ [archive] ∨
        ∃ target spot, fs.lookup (k ++ [archive]) = some (.link target) ∧
          fs.resolve true (root.child archive) = .ok spot ∧ spot.location = x.1) := by
  have hname := isName_of_writable hone hwritable
  have hfree := (FileSystem.exists_of_writable (hshrinks.wellFormed hwf) hwritable).2
  obtain ⟨spot, hres, -, -, hlocation, -⟩ := FileSystem.writable_eq_ok hwritable
  rw [FileSystem.not_endsWithSlash_of_writable hwritable, Bool.not_false] at hres
  obtain ⟨k', hk', hroute'⟩ :=
    FileSystem.exists_route_of_resolve_child (hshrinks.wellFormed hwf) hname hres
  obtain rfl := root_eq_of_route hroot (hroute'.of_guides hshrinks.guides hk')
    (hshrinks.guides.directory _ hk')
  rw [← hlocation] at hfree hsame ⊢
  refine ⟨fun e he => hfree e (by rw [hsame, he]), ?_⟩
  by_cases hlink : ∃ target, fs'.lookup (k' ++ [archive]) = some (.link target)
  · right
    obtain ⟨target, htarget⟩ := hlink
    have hbefore := FileSystem.resolve_of_guides hshrinks.guides hres fun target htarget => by
      rw [hsame, htarget]
    exact ⟨target, _, hshrinks.lookup _ _ htarget, hbefore, rfl⟩
  · left
    simp only [not_exists] at hlink
    obtain ⟨-, -, rfl⟩ := hroute'.clear_of_resolve hk' (by simpa using hname)
      (List.cons_ne_nil _ []) (FileSystem.clear_singleton hk' _).noLinks (.inr hlink) hres
    rfl

theorem touches_of_writable {mode : Nat} {x : Location × Option Nat} (hwf : fs.WellFormed)
    (hm : Manifest.read fs root = .ok manifest)
    (hroot : fs.find true root = .ok (k, .directory mode))
    (hone : isOneComponent (archiveName manifest.name options) = true)
    (hshrinks : Shrinks fs fs') (hchanges : ChangesOnly (k <+: ·) fs fs')
    (hwritable : fs'.writable (root.child (archiveName manifest.name options)) = .ok x) :
    Touches fs root options x.1 := by
  by_cases hin : k <+: x.1
  · exact .inside hroot hin
  · obtain ⟨hfile, hplace⟩ :=
      archive_place_of_writable hwf hroot hone hshrinks hwritable (hchanges.lookup _ hin)
    rcases hplace with hplace | ⟨target, spot, htarget, hspot, hlocation⟩
    · rw [hplace] at hin
      exact absurd (List.prefix_append k _) hin
    · exact .linked hroot hm htarget ⟨spot, hspot, hlocation⟩ hfile

/-! ## Packaging -/

/-- What writing a file in the place of the archive keeps, packing keeps. -/
theorem leaves_pack {R : FileSystem → Prop} (hwf : fs.WellFormed) (h : R fs)
    (hwrite : ∀ x fs', fs.writable out = .ok x → FileSystem.StaysIn (· = x.1) fs fs' → R fs') :
    Task.Leaves (pack root out options) fs R := by
  have hcreate : Task.Leaves (Archive.createArchive root out (order options)) fs R := by
    refine (Archive.leaves_createArchive hwf).mono fun fs' hleft => ?_
    rcases hleft with rfl | ⟨x, hwritable, hwritten⟩
    · exact h
    · exact hwrite x fs' hwritable hwritten
  exact Task.leaves_bind hcreate.error fun members fs' h =>
    Task.leaves_pure _ (hcreate.ok members fs' h)

theorem changesOnly_of_pack {mode : Nat} (hwf : fs.WellFormed)
    (hm : Manifest.read fs root = .ok manifest)
    (hroot : fs.find true root = .ok (k, .directory mode))
    (hone : isOneComponent (archiveName manifest.name options) = true)
    (hshrinks : Shrinks fs fs') (hchanges : ChangesOnly (k <+: ·) fs fs') :
    Task.Leaves (pack root (root.child (archiveName manifest.name options)) options) fs'
      fun fs'' => ChangesOnly (Touches fs root options) fs fs'' := by
  have hbefore : ChangesOnly (Touches fs root options) fs fs' :=
    hchanges.mono fun l hl => .inside hroot hl
  refine leaves_pack (hshrinks.wellFormed hwf) hbefore fun x fs'' hwritable hwritten => ?_
  have htouches := touches_of_writable hwf hm hroot hone hshrinks hchanges hwritable
  exact hbefore.trans (hwritten.changes.mono fun l hl => hl ▸ htouches)

/-- **Packaging changes nothing outside the plugin**, whatever comes of it, but what a link leads to
that stands in the place of the archive. -/
theorem leaves_package (hwf : fs.WellFormed) (root : Path) (options : PackageOptions) :
    Task.Leaves (package root options) fs
      fun fs' => ChangesOnly (Touches fs root options) fs fs' := by
  have heq := package_eq root options fs
  cases hm : Manifest.read fs root with
  | error cause =>
    rw [hm] at heq
    exact (Task.leaves_throw cause (.refl _ fs)).congr heq
  | ok manifest =>
    rw [hm] at heq
    simp only at heq
    obtain ⟨k, mode, hroot⟩ := exists_root_of_read hwf hm
    split at heq
    · rename_i hone
      split at heq
      · have hstrip := (leaves_stripArtifacts fs root options.stripDirs options.stripFiles).and
          (changesOnly_of_stripArtifacts hwf hroot)
        refine (Task.leaves_bind (fun cause fs' h => ?_) fun doomed fs' h => ?_).congr heq
        · exact (hstrip.error cause fs' h).2.mono fun l hl => .inside hroot hl
        · obtain ⟨hshrinks, hchanges⟩ := hstrip.ok doomed fs' h
          exact changesOnly_of_pack hwf hm hroot hone hshrinks hchanges
      · exact (changesOnly_of_pack hwf hm hroot hone (.refl fs) (.refl _ fs)).congr heq
    · exact (Task.leaves_throw _ (.refl _ fs)).congr heq

/-- A plugin with a link to `target` in the place of its archive, next to a file of its own. -/
def linkedPlugin (target : String) : FileSystem where
  entries :=
    [(["keep"], .file 0o644 [1]), (["p"], .directory 0o755), (["p", "x"], .directory 0o755),
      (["p", "x", "plugin.py"], .file 0o644 []), (["p", "yarn.lock"], .file 0o644 []),
      (["p", "demo.zip"], .link ⟨target⟩),
      (["p", "manifest.json"], .file 0o644
        (Text.encode "[\"demo\",\"acme\",null,[[\"x\",\"backend\"]]]"))]
  times := []
  clock := 0
  workingDirectory := []

/-- The link leads to a file of the plugin, so the file next to the plugin stays as it is. -/
theorem leaves_package_linkedPlugin : ∃ packed fs',
    package ⟨"p"⟩ messyOptions (linkedPlugin "x/plugin.py") = .ok packed fs' ∧
      ChangesOnly (Touches (linkedPlugin "x/plugin.py") ⟨"p"⟩ messyOptions)
        (linkedPlugin "x/plugin.py") fs' ∧
      ¬ Touches (linkedPlugin "x/plugin.py") ⟨"p"⟩ messyOptions ["keep"] := by
  have hwf : (linkedPlugin "x/plugin.py").WellFormed :=
    FileSystem.wellFormed_of_keys (by decide +kernel) (by decide +kernel)
  have hread : Manifest.read (linkedPlugin "x/plugin.py") ⟨"p"⟩ = .ok messyManifest :=
    eq_ok_of_toOption (by decide +kernel)
  have hleads : ((linkedPlugin "x/plugin.py").resolve true
      (Path.child ⟨"p"⟩ "demo.zip")).toOption.map FileSystem.Spot.location =
        some ["p", "x", "plugin.py"] := by
    decide +kernel
  obtain ⟨ms, hms⟩ := Option.isSome_iff_exists.mp (by decide +kernel :
    (packedMembers ⟨"p"⟩ messyOptions (linkedPlugin "x/plugin.py")).isSome = true)
  obtain ⟨packed, fs', h, -⟩ := exists_packed hms
  refine ⟨packed, fs', h, (leaves_package hwf ⟨"p"⟩ messyOptions).ok packed fs' h, fun hkeep => ?_⟩
  cases hkeep with
  | inside hfind hin =>
    obtain ⟨rfl, -⟩ := Prod.mk.inj (Except.ok.inj hfind)
    exact absurd hin (by decide)
  | linked _ hm _ hspot _ =>
    obtain ⟨spot, hres, hlocation⟩ := hspot
    obtain rfl := Except.ok.inj (hread.symm.trans hm)
    rw [show archiveName messyManifest.name messyOptions = "demo.zip" from rfl] at hres
    rw [hres] at hleads
    exact absurd (hlocation.symm.trans (Option.some.inj hleads)) (by decide)

/-- **The archive is written elsewhere**: over the file that the link in its place leads to. -/
theorem archive_is_written_elsewhere :
    (linkedPlugin "../keep").find true ⟨"p"⟩ = .ok (["p"], .directory 0o755) ∧
      ¬ ["p"] <+: ["keep"] ∧
      (packedMembers ⟨"p"⟩ messyOptions (linkedPlugin "../keep")).isSome = true ∧
      ((package ⟨"p"⟩ messyOptions).run (linkedPlugin "../keep")).2.lookup ["keep"] ≠
        (linkedPlugin "../keep").lookup ["keep"] :=
  ⟨rfl, by decide, by decide +kernel, by decide +kernel⟩

end Package

end PluginManager
