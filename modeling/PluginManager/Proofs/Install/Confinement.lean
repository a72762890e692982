import PluginManager.Proofs.Install.Output
import PluginManager.Proofs.Install.Plan
import PluginManager.Proofs.Manifest.Components

/-!
# Destinations and the target repository

A destination is the root of a target with an output directory joined to it, and the author of the
manifest is part of the output directory as it is written.  An author that is one name keeps the
destination below the root.  Any other author is read as a path: it may begin at the root directory
or climb out of the repository.

* `staysInside_outputDirectory`: an author that is one name stays inside.
* `destination_isStrictlyBelow_iff`: **exactly when a planned destination lies below its target**.
* `destination_outside`: an author for which it does not.
-/

namespace PluginManager

theorem staysInside_outputDirectory (r : Role) {author component : String} (ha : IsName author)
    (hc : IsName component) : (r.outputDirectory author component).StaysInside := by
  have hclimb := Path.climb_of_names (r.steps_outputDirectory ha hc) (r.isName_outputNames ha hc)
  exact ⟨r.isAbsolute_outputDirectory ha hc, by rw [hclimb]⟩

namespace Session

variable {fs : FileSystem} {t : Targets} {s s' : Session} {root : Path} {m : Manifest}
  {actions : List Action}

/-- **A planned destination lies strictly below the root of its role** exactly when the output
directory never leaves that root, or leaves it and comes back by name.  An author that is one name
never leaves it. -/
theorem destination_isStrictlyBelow_iff (hm : Manifest.read fs root = .ok m)
    (hp : plan fs t root m.author m.installs s = (.ok actions, s')) :
    ∀ a ∈ actions, ∃ c ∈ m.installs, ∃ target, s'.roots c.role = some target ∧
      a = actionFor root m.author target c ∧
      (target.IsStrictlyBelow a.destination ↔
        (c.role.outputDirectory m.author c.name).StaysInside ∨
          (c.role.outputDirectory m.author c.name).ComesBack target.place) ∧
      (IsName m.author → target.IsStrictlyBelow a.destination) := by
  obtain ⟨-, _, _, _, hsound⟩ := Manifest.exists_of_read hm
  obtain ⟨-, hroots, rfl⟩ := exists_of_plan hp
  intro a ha
  obtain ⟨c, hc, rfl⟩ := List.mem_map.mp ha
  obtain ⟨target, htarget⟩ := Option.isSome_iff_exists.mp (hroots c hc)
  have hname : IsName c.name := (hsound c hc).isName
  have hiff := Path.isStrictlyBelow_join_iff target
    (p := c.role.outputDirectory m.author c.name)
    (c.role.climb_outputDirectory_down m.author hname)
  refine ⟨c, hc, target, htarget, by rw [target_eq htarget], ?_, ?_⟩
  · rw [target_eq htarget]
    exact hiff
  · intro hauthor
    rw [target_eq htarget]
    exact hiff.mpr (.inl (staysInside_outputDirectory c.role hauthor hname))

/-! ## A repository and a plugin -/

/-- A plugin by `author` at `/p` with one backend component, and a backend repository at `/r`. -/
def authoredWorld (author : String) : FileSystem where
  entries :=
    [(["r"], .directory 0o755), (["r", "gunicorn.conf.py"], .file 0o644 []),
      (["etc"], .directory 0o755), (["etc", "x"], .file 0o644 []),
      (["p"], .directory 0o755), (["p", "x"], .directory 0o755),
      (["p", "manifest.json"], .file 0o644
        (Text.encode ("[\"demo\",\"" ++ author ++ "\",null,[[\"x\",\"backend\"]]]")))]
  times := []
  clock := 0
  workingDirectory := []

def authoredManifest (author : String) : Manifest :=
  ⟨"demo", author, none, [⟨"x", .backend, "x"⟩]⟩

def repositoryTargets : Targets := ⟨Presets.none.set .backend ⟨"/r"⟩, none⟩

def authoredPlan (author : String) : Except Failure (List Action) × Session :=
  plan (authoredWorld author) repositoryTargets ⟨"/p"⟩ author (authoredManifest author).installs
    .start

theorem destination_isStrictlyBelow_iff_acme :
    Manifest.read (authoredWorld "acme") ⟨"/p"⟩ = .ok (authoredManifest "acme") ∧
      authoredPlan "acme" =
        (.ok [⟨.backend, ⟨"/p/x"⟩, ⟨"/r/modules/acme/x"⟩⟩], (authoredPlan "acme").2) ∧
      (Path.mk "/r").IsStrictlyBelow ⟨"/r/modules/acme/x"⟩ := by
  have hm : Manifest.read (authoredWorld "acme") ⟨"/p"⟩ = .ok (authoredManifest "acme") :=
    eq_ok_of_toOption (by decide +kernel)
  have hp : authoredPlan "acme" =
      (.ok [⟨.backend, ⟨"/p/x"⟩, ⟨"/r/modules/acme/x"⟩⟩], (authoredPlan "acme").2) :=
    Prod.ext (eq_ok_of_toOption (by decide +kernel)) rfl
  have hkept : (authoredPlan "acme").2.roots .backend = some ⟨"/r"⟩ := by decide +kernel
  obtain ⟨c, -, target, htarget, ha, -, hname⟩ :=
    destination_isStrictlyBelow_iff hm hp _ List.mem_cons_self
  have hrole : .backend = c.role := congrArg Action.role ha
  rw [← hrole, hkept] at htarget
  obtain rfl := Option.some.inj htarget
  exact ⟨hm, hp, hname (by constructor <;> decide)⟩

/-- An author that begins with a slash is accepted and leads out of the repository: the destination
is `/etc/x`, and uninstalling removes what is there. -/
theorem destination_outside :
    (Manifest.read (authoredWorld "/etc") ⟨"/p"⟩).toOption = some (authoredManifest "/etc") ∧
      (authoredPlan "/etc").1.toOption = some [⟨.backend, ⟨"/p/x"⟩, ⟨"/etc/x"⟩⟩] ∧
      ¬ (Path.mk "/r").IsStrictlyBelow ⟨"/etc/x"⟩ ∧
      (authoredWorld "/etc").lookup ["etc", "x"] ≠ none ∧
      (uninstall repositoryTargets ⟨"/p"⟩ .start (authoredWorld "/etc")).2.2.lookup
        ["etc", "x"] = none := by
  decide +kernel

end Session

end PluginManager
