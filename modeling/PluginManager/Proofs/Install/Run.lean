import PluginManager.Proofs.Install.Operation

/-!
# What a run touches

What an operation does to the file system, however it ends, where the ways to the destinations are
direct.  Nothing is asked of the components.

* `Approachable.leaves_run`: **a run touches its destinations alone**, by induction on the
  components.
* `spares_plugin`: **the plugin is as it was**, where it lies apart from the destinations.
* `plugin_not_spared`: four ways in which it is not.
-/

namespace PluginManager

open FileSystem

namespace Layout

variable {L : Layout} {fs fs' : FileSystem} {l : Location} {c : Component} {cs : List Component}
  {op : Operation}

namespace Approachable

/-- **An action touches its destination alone**, whatever comes of it. -/
theorem leaves_act (h : L.Approachable fs) (hc : c ∈ L.components) :
    Task.Leaves (op.act (L.action c)) fs (Touched [L.destination c] fs) := by
  cases op with
  | install mode => exact (h.approach hc).leaves_installAction mode (h.action_destination hc)
  | uninstall => exact (h.approach hc).leaves_uninstallAction (h.action_destination hc)

/-- **A run touches its destinations alone**, wherever it stops. -/
theorem leaves_run (h : L.Approachable fs) (hcs : ∀ c ∈ cs, c ∈ L.components) :
    Task.Leaves ((cs.map L.action).forM op.act : Task Unit) fs
      (Touched (cs.map L.destination) fs) := by
  refine Task.leaves_forM (.refl h.wellFormed _) fun a ha fs₁ ht => ?_
  obtain ⟨c, hc, rfl⟩ := List.mem_map.mp ha
  have h₁ := h.of_keeps (.of_touched ht (exists_of_mem_map hcs))
  refine (h₁.leaves_act (hcs c hc)).mono fun fs' ht' => ht.trans (ht'.mono fun d hd => ?_)
  rw [List.mem_singleton.mp hd]
  exact List.mem_map_of_mem hc

end Approachable

end Layout

namespace Session

variable {L : Layout} {fs fs' : FileSystem} {op : Operation} {t : Targets} {s s' : Session}
  {p : Path} {actions : List Action} {result : Except Failure (List Action)}

/-- **The plugin is as it was** after an operation, however it ends, where it lies apart from the
destinations.  What the ways to the destinations are like matters when there is a root for every
role; otherwise nothing is done. -/
theorem spares_plugin (op : Operation) (hwf : fs.WellFormed)
    (hload : load fs p = .ok (.ofLocation L.root, L.manifest))
    (hroots : ∀ c ∈ L.components,
      s'.roots c.role = none ∨ s'.roots c.role = some (L.target c.role))
    (hdirect : (∀ c ∈ L.components, s'.roots c.role = some (L.target c.role)) →
      L.Direct fs ∧ ∀ c ∈ L.components, Apart L.root (L.destination c))
    (h : op.run t p s fs = (result, s', fs')) : SameTree L.root fs fs' := by
  by_cases hne : fs' = fs
  · rw [hne]
    exact .refl L.root fs
  · obtain ⟨root, m, actions, hload', hplan, hleft⟩ := exists_plan_of_ne h hne
    obtain ⟨rfl, rfl⟩ := Prod.mk.inj (Except.ok.inj (hload.symm.trans hload'))
    obtain ⟨-, hsome, -⟩ := exists_of_plan hplan
    have hkept : ∀ c ∈ L.components, s'.roots c.role = some (L.target c.role) := by
      intro c hc
      refine (hroots c hc).resolve_left fun hnone => ?_
      have hc' := hsome c hc
      rw [hnone] at hc'
      exact absurd hc' (by simp)
    obtain ⟨hd, hapart⟩ := hdirect hkept
    obtain rfl := actions_of_plan hkept hplan
    have htouched := hleft _ ((hd.approachable hwf hload).leaves_run fun _ hc => hc)
    refine htouched.sameTree fun d hd => ?_
    obtain ⟨c, hc, rfl⟩ := List.mem_map.mp hd
    exact hapart c hc

theorem spares_plugin_twofoldLayout :
    SameTree ["p"] Layout.twofoldWorld twofoldInstall.2.2 :=
  spares_plugin (.install .copy) Layout.wellFormed_twofoldWorld load_twofoldWorld
    (fun c hc => .inr (roots_twofoldInstall c hc))
    (fun _ => ⟨Layout.confined_twofoldLayout.direct, fun _ hc =>
      (Layout.confined_twofoldLayout.apart_destination hc [])⟩) twofoldInstall_eq

/-! ## A plugin that is not spared -/

/-- The plugin is a backend repository too, with its component in place there. -/
def ownTargetWorld : FileSystem :=
  acmeWorld [(["p", "gunicorn.conf.py"], emptyFile),
    (["p", "manifest.json"], manifestOf "[\"modules/acme/x\",\"backend\"]"),
    (["p", "modules"], .directory 0o755), (["p", "modules", "acme"], .directory 0o755),
    (["p", "modules", "acme", "x"], .directory 0o755)]

/-- A link into the plugin on the way to the destination. -/
def linkedWayWorld : FileSystem :=
  acmeWorld [(["r", "nuxt.config.js"], emptyFile), (["r", "modules", "@acme"], .link ⟨"/p/src"⟩),
    (["p", "manifest.json"], manifestOf "[\"src/x\",\"store\"]"),
    (["p", "src"], .directory 0o755), (["p", "src", "x"], .directory 0o755)]

/-- The root of the second target is given by a path through the first destination.  The link there
leads to `/q`; once a directory is in its place, the path leads to the plugin. -/
def detourToPluginWorld : FileSystem :=
  acmeWorld [(["r", "gunicorn.conf.py"], emptyFile),
    (["r", "modules", "acme", "x"], .link ⟨"/q/a/b/c/d"⟩), (["q"], .directory 0o755),
    (["q", "a"], .directory 0o755), (["q", "a", "b"], .directory 0o755),
    (["q", "a", "b", "c"], .directory 0o755), (["q", "a", "b", "c", "d"], .directory 0o755),
    (["q", "p"], .directory 0o755), (["q", "p", "setup.sh"], emptyFile),
    (["p", "manifest.json"], manifestOf "[\"x\",\"backend\"],[\"y\",\"docker\"]"),
    (["p", "x"], .directory 0o755), (["p", "y"], .directory 0o755)]

/-- The second destination is inside the first, where there is a link to a component by then. -/
def nestedWorld : FileSystem :=
  acmeWorld [(["r", "gunicorn.conf.py"], emptyFile),
    (["r", "modules", "acme", "setup.sh"], emptyFile),
    (["p", "manifest.json"], manifestOf "[\"compose\",\"backend\"],[\"y\",\"docker\"]"),
    (["p", "compose"], .directory 0o755), (["p", "y"], .directory 0o755)]

def targetsAt (backend docker store : String) : Targets :=
  ⟨((Presets.none.set .backend ⟨backend⟩).set .docker ⟨docker⟩).set .store ⟨store⟩, none⟩

/-- What an operation lists, and what is at a location before and after it. -/
def glimpse (op : Operation) (t : Targets) (fs : FileSystem) (l : Location) :
    Option (List Action) × Option Entry × Option Entry :=
  let (result, _, fs') := op.run t ⟨"/p"⟩ .start fs
  (result.toOption, fs.lookup l, fs'.lookup l)

/-- The plugin is damaged where a destination lies in it, where a link or the path of a target root
leads into it, and where a destination lies inside another. -/
theorem plugin_not_spared :
    IsName "acme" ∧
      glimpse .uninstall (targetsAt "/p" "" "") ownTargetWorld ["p", "modules", "acme", "x"] =
        (some [⟨.backend, ⟨"/p/modules/acme/x"⟩, ⟨"/p/modules/acme/x"⟩⟩],
          some (.directory 0o755), none) ∧
      glimpse .uninstall (targetsAt "" "" "/r") linkedWayWorld ["p", "src", "x"] =
        (some [⟨.store, ⟨"/p/src/x"⟩, ⟨"/r/modules/@acme/x"⟩⟩], some (.directory 0o755), none) ∧
      glimpse (.install .copy) (targetsAt "/r" "/r/modules/acme/x/../../../../p" "")
          detourToPluginWorld ["p", "compose"] =
        (some [⟨.backend, ⟨"/p/x"⟩, ⟨"/r/modules/acme/x"⟩⟩,
          ⟨.docker, ⟨"/p/y"⟩,
            ⟨"/r/modules/acme/x/../../../../p/compose/plugins/docker/acme_y"⟩⟩],
          none, some (.directory newDirectoryMode)) ∧
      glimpse (.install .link) (targetsAt "/r" "/r/modules/acme" "") nestedWorld
          ["p", "compose", "plugins"] =
        (some [⟨.backend, ⟨"/p/compose"⟩, ⟨"/r/modules/acme/compose"⟩⟩,
          ⟨.docker, ⟨"/p/y"⟩, ⟨"/r/modules/acme/compose/plugins/docker/acme_y"⟩⟩],
          none, some (.directory newDirectoryMode)) := by
  decide +kernel

end Session

end PluginManager
