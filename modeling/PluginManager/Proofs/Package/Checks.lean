import PluginManager.Proofs.FileSystem.Leaves
import PluginManager.Proofs.Package.Contents

/-!
# Checks before packaging

What cannot be taken back, the removal of artifacts, comes after the manifest was read and the name
of the archive was checked.  From there on only the file system can fail.

* `Refuses`: why a plugin is not packaged at all.
* `failsOnFiles_stripArtifacts`, `failsOnFiles_pack`: what comes after the checks fails on files.
* `components_of_isName`: a name is one component, and the same text.
* `package_checks_first`: **a refusal is the first thing packaging does**, every failure that is not
  one of the file system is a refusal, and the archive lies in the plugin under a name of its own.
-/

namespace PluginManager

theorem Path.components_of_isName {name : String} (h : IsName name) :
    (Path.mk name).components = [.normal name] := by
  have hbody : (Path.mk name).pieces.filterMap Path.component? = [.normal name] := by
    rw [h.pieces, List.filterMap_cons_some (component?_of_isName h), List.filterMap_nil]
  have hcurrent : (Path.mk name).pieces.head? ≠ some "." := by
    rw [h.pieces, List.head?_cons]
    exact fun hhead => h.ne_current (Option.some.inj hhead)
  rw [Path.components, hbody, if_neg (by simp [h.not_isAbsolute]), if_neg hcurrent]

namespace Package

variable {fs fs' : FileSystem} {root : Path} {options : PackageOptions} {e : Failure}

/-! ## Failures after the checks -/

theorem failsOnFiles_stripArtifacts (root : Path) (dirs files : List String) :
    Task.FailsOnFiles (stripArtifacts root dirs files) := by
  intro fs e fs' h
  rw [stripArtifacts] at h
  split at h
  · cases h
    rfl
  · rename_i visits hwalk
    simp only at h
    split at h
    · rename_i cause fs₁ hrun
      cases h
      refine Task.failsOnFiles_forM (fun p => ?_) _ fs e fs' hrun
      exact Task.failsOnFiles_forPath (FileSystem.removeAll p)
    · cases h

theorem failsOnFiles_createArchive (root out : Path) (order : FileSystem.Order) :
    Task.FailsOnFiles (Archive.createArchive root out order) := by
  intro fs e fs' h
  rw [Archive.createArchive] at h
  split at h
  · cases h
    rfl
  · simp only at h
    split at h
    · cases h
      rfl
    · cases h

theorem failsOnFiles_pack (root out : Path) (options : PackageOptions) :
    Task.FailsOnFiles (pack root out options) := by
  refine (failsOnFiles_createArchive root out (order options)).bind fun members => ?_
  intro fs e fs' h
  cases h

/-! ## Refusals -/

/-- The plugin has no manifest that can be read, or its archive would not have a name. -/
inductive Refuses (fs : FileSystem) (root : Path) (options : PackageOptions) : Failure → Prop
  | unread {e : Failure} : Manifest.read fs root = .error e → Refuses fs root options e
  | unnamed {m : Manifest} : Manifest.read fs root = .ok m →
      isOneComponent (archiveName m.name options) = false →
      Refuses fs root options (.invalid (.archiveName m.name))

/-- A refusal comes before anything is changed. -/
theorem Refuses.package_eq_error (h : Refuses fs root options e) :
    package root options fs = .error e fs := by
  rw [package_eq]
  cases h with
  | unread hread => rw [hread]
  | unnamed hread hone =>
    rw [hread]
    simp only
    rw [if_neg (by simp [hone])]

/-- A failure is a refusal, or it comes from the file system. -/
theorem refuses_of_package (h : package root options fs = .error e fs')
    (hkind : e.isFile = false) : Refuses fs root options e := by
  have hfails : ∀ t : Task Packed, Task.FailsOnFiles t → t fs ≠ .error e fs' := by
    intro t ht hres
    rw [ht fs e fs' hres] at hkind
    exact absurd hkind (by decide)
  rw [package_eq] at h
  cases hread : Manifest.read fs root with
  | error cause =>
    rw [hread] at h
    cases h
    exact .unread hread
  | ok m =>
    simp only [hread] at h
    cases hone : isOneComponent (archiveName m.name options) with
    | false =>
      rw [if_neg (by simp [hone])] at h
      cases h
      exact .unnamed hread hone
    | true =>
      rw [if_pos hone] at h
      split at h
      · refine absurd h (hfails _ ?_)
        exact (failsOnFiles_stripArtifacts root options.stripDirs options.stripFiles).bind
          fun _ => failsOnFiles_pack root _ options
      · exact absurd h (hfails _ (failsOnFiles_pack root _ options))

/-- **Packaging checks before it removes anything.**  Where the manifest cannot be read, or the name
of the archive is not one component, that is what packaging ends with, and nothing has changed;
every other failure is one of the file system.  An archive that was made lies in the plugin, and its
name is one component that goes down: it is neither `.` nor `..`, and there is no slash in it. -/
theorem package_checks_first (fs : FileSystem) (root : Path) (options : PackageOptions) :
    (∀ e, Refuses fs root options e → package root options fs = .error e fs) ∧
      (∀ e fs', package root options fs = .error e fs' → e.isFile = false →
        Refuses fs root options e ∧ fs' = fs) ∧
      ∀ packed fs', package root options fs = .ok packed fs' →
        ∃ m, Manifest.read fs root = .ok m ∧
          packed.path = root.child (archiveName m.name options) ∧
          IsName (archiveName m.name options) ∧
          (Path.mk (archiveName m.name options)).components =
            [.normal (archiveName m.name options)] := by
  refine ⟨fun e h => h.package_eq_error, fun e fs' h hkind => ?_, fun packed fs' h => ?_⟩
  · have hrefuses := refuses_of_package h hkind
    obtain ⟨-, rfl⟩ := EStateM.Result.error.inj (hrefuses.package_eq_error.symm.trans h)
    exact ⟨hrefuses, rfl⟩
  · obtain ⟨m, hread, hone, -, hpath, hcreate⟩ := package_eq_ok h
    rw [hpath] at hcreate
    have hname : IsName (archiveName m.name options) := by
      cases hwritable : (stripped root options fs).writable
          (root.child (archiveName m.name options)) with
      | error cause =>
        -- Where no file can be created there is no archive.
        rw [Archive.createArchive, hwritable] at hcreate
        cases hcreate
      | ok x => exact isName_of_writable hone hwritable
    exact ⟨m, hread, hpath, hname, Path.components_of_isName hname⟩

/-- The extension makes a path of the name of every archive. -/
def deepOptions : PackageOptions := { messyOptions with extension := "a/zip" }

/-- The messy plugin is packaged as `demo.zip`, but not with an extension that makes a path of its
name: that is refused, with its artifacts still there. -/
theorem package_checks_first_messyPlugin :
    (∃ packed fs', package ⟨"p"⟩ messyOptions (messyPlugin "p") = .ok packed fs' ∧
      packed.path = ⟨"p/demo.zip"⟩) ∧
      package ⟨"p"⟩ deepOptions (messyPlugin "p") = .error (.invalid (.archiveName "demo"))
        (messyPlugin "p") ∧
      (messyPlugin "p").lookup ["p", "yarn.lock"] ≠ none := by
  have hread : Manifest.read (messyPlugin "p") ⟨"p"⟩ = .ok messyManifest :=
    eq_ok_of_toOption (by decide +kernel)
  obtain ⟨packed, fs', h, -⟩ := exists_packed
    (by decide +kernel : packedMembers ⟨"p"⟩ messyOptions (messyPlugin "p") = some messyArchive)
  obtain ⟨m, hm, hpath, -⟩ :=
    (package_checks_first (messyPlugin "p") ⟨"p"⟩ messyOptions).2.2 packed fs' h
  obtain rfl := Except.ok.inj (hread.symm.trans hm)
  have hrefuses : Refuses (messyPlugin "p") ⟨"p"⟩ deepOptions (.invalid (.archiveName "demo")) :=
    .unnamed hread (by decide +kernel)
  have hrefused := (package_checks_first (messyPlugin "p") ⟨"p"⟩ deepOptions).1 _ hrefuses
  exact ⟨⟨packed, fs', h, hpath.trans (by decide +kernel)⟩, hrefused, by decide +kernel⟩

end Package

end PluginManager
