import PluginManager.Proofs.Install.Effect

/-!
# Installing once more

An install depends on what it reads and on the way down to the destinations.  What an earlier
install or uninstall did to the destinations makes no difference to either, whichever mode it had.

* `Layout.Reread`, `Layout.Marked`: nothing that is read again lies in a destination.
* `load_of_spares`, `acceptTarget_of_spares`: so the same is read.
* `Settled.run_again`: **a run that succeeded succeeds again**, by induction on the components.
* `install_absorbs`: **an install after an install or an uninstall** leaves what it leaves alone.
-/

namespace PluginManager

open FileSystem

namespace Layout

variable {L : Layout} {fs fs' fs₁ fs₂ fs₃ : FileSystem} {p : Path} {c : Component}
  {cs : List Component} {mode : InstallMode}

/-! ## Reading again -/

/-- The plugin and its manifest are reached past the destinations. -/
structure Reread (L : Layout) (fs : FileSystem) (p : Path) : Prop where
  plugin : ∃ k, Route fs L.Off p k
  manifest : ∃ k, Route fs L.Off (manifestPath (.ofLocation L.root)) k

/-- The files by which the targets are known are reached past the destinations. -/
def Marked (L : Layout) (fs : FileSystem) : Prop :=
  ∀ c ∈ L.components, ∃ k, Route fs L.Off ((L.target c.role).child c.role.marker) k

theorem Spares.findsAgain (hs : L.Spares fs fs') (h : ∃ k, Route fs L.Off p k) :
    fs.FindsAgain fs' p := by
  obtain ⟨k, hroute⟩ := h
  exact hroute.findsAgain hs.holds hs.workingDirectory

/-- **The same plugin is loaded.** -/
theorem Settled.load_of_spares (h : L.Settled fs) (hs : L.Spares fs fs') (hr : L.Reread fs p)
    (hload : Session.load fs p = .ok (.ofLocation L.root, L.manifest)) :
    Session.load fs' p = .ok (.ofLocation L.root, L.manifest) := by
  obtain ⟨hcanonical, hread⟩ := Session.load_eq_ok.mp hload
  obtain ⟨-, r, e, hroot, -⟩ := Manifest.exists_of_read hread
  have hroute := route_ofLocation h.wellFormed h.root hroot
  obtain ⟨hr', -, -⟩ := hroute.find_of_holds hroot (.refl _ fs) rfl
  have hself : fs.FindsAgain fs' (.ofLocation L.root) :=
    hs.findsAgain ⟨L.root, h.off_root.route h.wellFormed h.root hroot⟩
  have hagain : Manifest.read fs' (.ofLocation L.root) = .ok L.manifest := by
    refine Manifest.read_congr hread (hs.findsAgain hr.manifest) hself ?_
    intro r' e' hfind c hc
    obtain ⟨rfl, -⟩ : r = r' ∧ e = e' := by simpa [hroot] using hfind
    rw [hr']
    exact hs.findsAgain ⟨L.origin c, h.source c hc⟩
  exact Session.load_eq_ok.mpr ⟨(hs.findsAgain hr.plugin).canonical hcanonical, hagain⟩

/-- **The same roots are accepted.** -/
theorem Settled.acceptTarget_of_spares (h : L.Settled fs) (hs : L.Spares fs fs')
    (hm : L.Marked fs) (hc : c ∈ L.components) {answer : Path}
    (haccept : acceptTarget fs answer c.role = .ok (L.target c.role)) :
    acceptTarget fs' answer c.role = .ok (L.target c.role) := by
  have htarget : fs.FindsAgain fs' (L.target c.role) :=
    hs.findsAgain ⟨L.place c.role, h.target c hc⟩
  exact acceptTarget_congr hs.workingDirectory htarget (hs.findsAgain (hm c hc)) haccept

/-! ## Acting again -/

/-- An action that succeeded after some actions succeeds after others. -/
theorem Settled.installAction_again (h : L.Settled fs) (hs₁ : L.Spares fs fs₁)
    (hs₂ : L.Spares fs fs₂) (hc : c ∈ L.components)
    (hact : Session.installAction mode (L.action c) fs₁ = .ok () fs') :
    ∃ fs₃, Session.installAction mode (L.action c) fs₂ = .ok () fs₃ := by
  have h₁ := h.of_spares hs₁
  have h₂ := h.of_spares hs₂
  have hworse := hs₁.noWorse hs₂ hc fun l => h.approachable.off_of_encloses
  obtain ⟨fs₄, hremove, hput⟩ := installAction_eq_ok.mp hact
  simp only [installAction_eq_ok]
  rw [h.approachable.action_destination hc] at hremove hput ⊢
  cases mode with
  | copy =>
    obtain ⟨r, hr⟩ := h.within c hc
    have hsame := (hs₁.plugin.symm.trans hs₂.plugin).append r
    rw [hr] at hsame
    obtain ⟨fs₅, fs₆, hremove', hput'⟩ :=
      Site.copy_again (h₁.ready hc) (h₂.ready hc) hworse hsame hremove hput
    exact ⟨fs₆, fs₅, hremove', hput'⟩
  | link =>
    obtain ⟨fs₅, fs₆, hremove', hput'⟩ :=
      Site.link_again (h₁.ready hc) (h₂.ready hc) hworse hremove hput
    exact ⟨fs₆, fs₅, hremove', hput'⟩

/-- **A run that succeeded after some actions** succeeds after others. -/
theorem Settled.run_again (h : L.Settled fs) (hs₁ : L.Spares fs fs₁) (hs₂ : L.Spares fs fs₂)
    (hcs : ∀ c ∈ cs, c ∈ L.components)
    (hrun : ((cs.map L.action).forM (Session.installAction mode) : Task Unit) fs₁ = .ok () fs') :
    ∃ fs₃, ((cs.map L.action).forM (Session.installAction mode) : Task Unit) fs₂ =
      .ok () fs₃ := by
  induction cs generalizing fs₁ fs₂ with
  | nil => exact ⟨fs₂, rfl⟩
  | cons c rest ih =>
    have hc := hcs c List.mem_cons_self
    rw [List.map_cons] at hrun ⊢
    obtain ⟨fs₄, hfirst, hrest⟩ := Task.forM_cons_eq_ok.mp hrun
    obtain ⟨fs₅, hfirst'⟩ := h.installAction_again hs₁ hs₂ hc hfirst
    have hs₄ := hs₁.trans ((h.of_spares hs₁).spares_of_installAction hc hfirst)
    have hs₅ := hs₂.trans ((h.of_spares hs₂).spares_of_installAction hc hfirst')
    obtain ⟨fs₆, hrest'⟩ := ih hs₄ hs₅ (fun d hd => hcs d (List.mem_cons_of_mem c hd)) hrest
    exact ⟨fs₆, Task.forM_cons_eq_ok.mpr ⟨fs₅, hfirst', hrest'⟩⟩

/-- What an install leaves depends on what was there before it alone. -/
theorem Installed.lookup_eq (h₁ : L.Installed mode fs fs₁) (h₂ : L.Installed mode fs fs₂) :
    fs₁.lookup = fs₂.lookup := by
  funext l
  by_cases hl : L.Off l
  · rw [h₁.away l hl, h₂.away l hl]
  · simp only [Off, not_forall, not_not] at hl
    obtain ⟨c, hc, r, rfl⟩ := hl
    obtain ⟨last, hlast, htree⟩ := h₁.tree c hc
    obtain ⟨last', hlast', htree'⟩ := h₂.tree c hc
    obtain rfl : last = last' := Option.some.inj (hlast.symm.trans hlast')
    exact congrFun (htree.trans htree'.symm) r

end Layout

namespace Session

variable {L : Layout} {fs fs₁ fs₂ : FileSystem} {t t₁ t₂ : Targets}
  {s s' s₁ s₂ s₁' s₂' : Session} {p : Path} {actions₁ actions₂ : List Action}
  {mode₁ mode₂ : InstallMode}

/-- **The same is planned** where the destinations alone are different: in a session that has the
roots, and in one that comes to them by markers past the destinations. -/
theorem loadAndPlan_again (h : L.Settled fs) (hs : L.Spares fs fs₁) (hr : L.Reread fs p)
    (hload : load fs p = .ok (.ofLocation L.root, L.manifest))
    (hroots : ∀ c ∈ L.components, s'.roots c.role = some (L.target c.role))
    (hsession : s = s' ∨ L.Marked fs ∧ ∃ actions, loadAndPlan fs t p s = (.ok actions, s')) :
    loadAndPlan fs₁ t p s = (.ok (L.components.map L.action), s') := by
  have hload₁ := h.load_of_spares hs hr hload
  rw [loadAndPlan, hload₁]
  rcases hsession with rfl | ⟨hmarked, actions, hplan⟩
  · exact plan_of_kept hroots
  · rw [loadAndPlan, hload] at hplan
    obtain rfl := actions_of_plan hroots hplan
    refine plan_congr hplan fun c hc answer root hkept haccept => ?_
    obtain rfl : L.target c.role = root := by
      rw [hroots c hc] at hkept
      exact Option.some.inj hkept
    exact h.acceptTarget_of_spares hs hmarked hc haccept

/-- **An install after another install or an uninstall**, of any mode, lists the same actions and
leaves what it leaves alone.  The session that acted before may install, and so may another one
that comes to the same targets. -/
theorem install_absorbs (hwf : fs.WellFormed)
    (hload : load fs p = .ok (.ofLocation L.root, L.manifest)) (hc : L.Confined fs)
    (hr : L.Reread fs p)
    (h₁ : install mode₁ t₁ p s₁ fs = (.ok actions₁, s₁', fs₁) ∨
      uninstall t₁ p s₁ fs = (.ok actions₁, s₁', fs₁))
    (h₂ : install mode₂ t₂ p s₂ fs = (.ok actions₂, s₂', fs₂))
    (hroots₁ : ∀ c ∈ L.components, s₁'.roots c.role = some (L.target c.role))
    (hroots₂ : ∀ c ∈ L.components, s₂'.roots c.role = some (L.target c.role)) :
    actions₁ = actions₂ ∧ ∃ fs₃, fs₃.lookup = fs₂.lookup ∧
      install mode₂ t₁ p s₁' fs₁ = (.ok actions₂, s₁', fs₃) ∧
      (L.Marked fs → install mode₂ t₂ p s₂ fs₁ = (.ok actions₂, s₂', fs₃)) := by
  have hsettled := hc.settled hwf (load_eq_ok.mp hload).2
  have hfirst : actions₁ = L.components.map L.action ∧ L.Spares fs fs₁ := by
    rcases h₁ with h₁ | h₁
    · obtain ⟨hactions, hrun⟩ := run_of_carryOut hload hroots₁ h₁
      exact ⟨hactions, hsettled.spares_of_run Layout.Settled.spares_of_installAction
        (fun _ hc => hc) hrun⟩
    · obtain ⟨hactions, hrun⟩ := run_of_carryOut hload hroots₁ h₁
      exact ⟨hactions, hsettled.spares_of_run Layout.Settled.spares_of_uninstallAction
        (fun _ hc => hc) hrun⟩
  obtain ⟨hactions₁, hspares⟩ := hfirst
  obtain ⟨hactions₂, hrun₂⟩ := run_of_carryOut hload hroots₂ h₂
  obtain ⟨fs₃, hrun₃⟩ := hsettled.run_again (.refl hwf) hspares (fun _ hc => hc) hrun₂
  have hinstalled₂ := hsettled.installed_of_run (.refl hwf) hrun₂
  have hinstalled₃ := hsettled.installed_of_run hspares hrun₃
  refine ⟨hactions₁.trans hactions₂.symm, fs₃, hinstalled₃.lookup_eq hinstalled₂, ?_,
    fun hmarked => ?_⟩
  · refine carryOut_eq_ok.mpr ⟨?_, hactions₂ ▸ hrun₃⟩
    rw [hactions₂]
    exact loadAndPlan_again hsettled hspares hr hload hroots₁ (.inl rfl)
  · refine carryOut_eq_ok.mpr ⟨?_, hactions₂ ▸ hrun₃⟩
    rw [hactions₂]
    exact loadAndPlan_again hsettled hspares hr hload hroots₂
      (.inr ⟨hmarked, actions₂, (carryOut_eq_ok.mp h₂).1⟩)

/-! ## A copy after links -/

theorem reread_twofoldLayout : Layout.twofoldLayout.Reread Layout.twofoldWorld ⟨"/p"⟩ := by
  have hroot : Route Layout.twofoldWorld Layout.twofoldLayout.Off ⟨"/p"⟩ ["p"] :=
    Layout.route_of_isSome Layout.wellFormed_twofoldWorld rfl (by decide +kernel)
      (by decide +kernel) (by decide +kernel)
  have hname : IsName manifestName := by decide
  exact ⟨⟨_, hroot⟩, _, hroot.child_of_entry (by decide +kernel) hname (by decide) rfl rfl
    (by decide +kernel)⟩

theorem marked_twofoldLayout : Layout.twofoldLayout.Marked Layout.twofoldWorld := by
  have hroot : Route Layout.twofoldWorld Layout.twofoldLayout.Off ⟨"/r"⟩ ["r"] :=
    Layout.route_of_isSome Layout.wellFormed_twofoldWorld rfl (by decide +kernel)
      (by decide +kernel) (by decide +kernel)
  have hrole : ∀ c ∈ Layout.twofoldLayout.components, c.role = .backend := by decide
  have hname : IsName (Role.backend.marker) := by decide
  intro c hc
  rw [hrole c hc]
  exact ⟨_, hroot.child_of_entry (by decide +kernel) hname (by decide) rfl rfl
    (by decide +kernel)⟩

def twofoldLink : Except Failure (List Action) × Session × FileSystem :=
  install .link repositoryTargets ⟨"/p"⟩ .start Layout.twofoldWorld

theorem install_absorbs_twofoldLink : ∃ fs₃, fs₃.lookup = twofoldInstall.2.2.lookup ∧
    install .copy repositoryTargets ⟨"/p"⟩ twofoldLink.2.1 twofoldLink.2.2 =
      (.ok twofoldActions, twofoldLink.2.1, fs₃) ∧
    install .copy repositoryTargets ⟨"/p"⟩ .start twofoldLink.2.2 =
      (.ok twofoldActions, twofoldInstall.2.1, fs₃) := by
  have hlink : twofoldLink = (.ok twofoldActions, twofoldLink.2.1, twofoldLink.2.2) :=
    Prod.ext (eq_ok_of_toOption (by decide +kernel)) rfl
  have hroots : ∀ c ∈ Layout.twofoldLayout.components,
      twofoldLink.2.1.roots c.role = some (Layout.twofoldLayout.target c.role) := by
    decide +kernel
  obtain ⟨-, fs₃, hlookup, hkept, hasked⟩ := install_absorbs Layout.wellFormed_twofoldWorld
    load_twofoldWorld Layout.confined_twofoldLayout reread_twofoldLayout (.inl hlink)
    twofoldInstall_eq hroots roots_twofoldInstall
  exact ⟨fs₃, hlookup, hkept, hasked marked_twofoldLayout⟩

/-! ## What is lost in a destination -/

/-- The plugin is given by a link at the destination. -/
def linkedRootWorld : FileSystem :=
  acmeWorld [(["r", "gunicorn.conf.py"], emptyFile), (["p", "manifest.json"], acmeManifest),
    (["r", "modules", "acme", "x"], .link ⟨"/p"⟩), (["p", "x"], .directory 0o755),
    (["p", "x", "plugin.py"], emptyFile)]

/-- The manifest is a link into the destination. -/
def linkedManifestWorld : FileSystem :=
  acmeWorld [(["r", "gunicorn.conf.py"], emptyFile),
    (["p", "manifest.json"], .link ⟨"../r/modules/acme/x/manifest.json"⟩),
    (["r", "modules", "acme", "x"], .directory 0o755),
    (["r", "modules", "acme", "x", "manifest.json"], acmeManifest),
    (["p", "x"], .directory 0o755), (["p", "x", "plugin.py"], emptyFile)]

/-- The marker of the target is a link into the destination. -/
def linkedMarkerWorld : FileSystem :=
  acmeWorld [(["r", "gunicorn.conf.py"], .link ⟨"modules/acme/x/plugin.py"⟩),
    (["p", "manifest.json"], acmeManifest), (["r", "modules", "acme", "x"], .directory 0o755),
    (["r", "modules", "acme", "x", "plugin.py"], emptyFile), (["p", "x"], .directory 0o755),
    (["p", "x", "plugin.py"], emptyFile)]

/-- Two installs in one session. -/
def installTwice (p : Path) (fs : FileSystem) : Option (List Action) × Option (List Action) :=
  let (first, s, fs') := install .copy repositoryTargets p .start fs
  (first.toOption, (install .copy repositoryTargets p s fs').1.toOption)

/-- An uninstall and an install in another session. -/
def uninstallThenInstall (p : Path) (fs : FileSystem) :
    Option (List Action) × Option (List Action) :=
  let (first, _, fs') := uninstall repositoryTargets p .start fs
  (first.toOption, (install .copy repositoryTargets p .start fs').1.toOption)

/-- What is read through a destination is not found a second time: a component, the root of the
plugin, its manifest, and the marker of a target when another session asks for it. -/
theorem install_again_fails :
    (IsName "acme" ∧ ¬ ["p"] <+: ["r"] ∧ ¬ ["r"] <+: ["p"]) ∧
      (∀ fs ∈ [loopedWorld, linkedRootWorld, linkedManifestWorld, linkedMarkerWorld],
        fs.isDirectoryAt ["r", "modules", "acme"] = true) ∧
      installTwice ⟨"/p"⟩ loopedWorld =
        (some [⟨.backend, ⟨"/p/x"⟩, ⟨"/r/modules/acme/x"⟩⟩], none) ∧
      installTwice ⟨"/r/modules/acme/x"⟩ linkedRootWorld =
        (some [⟨.backend, ⟨"/p/x"⟩, ⟨"/r/modules/acme/x"⟩⟩], none) ∧
      installTwice ⟨"/p"⟩ linkedManifestWorld =
        (some [⟨.backend, ⟨"/p/x"⟩, ⟨"/r/modules/acme/x"⟩⟩], none) ∧
      (install .copy repositoryTargets ⟨"/p"⟩ .start linkedMarkerWorld).1.toOption =
        some [⟨.backend, ⟨"/p/x"⟩, ⟨"/r/modules/acme/x"⟩⟩] ∧
      uninstallThenInstall ⟨"/p"⟩ linkedMarkerWorld =
        (some [⟨.backend, ⟨"/p/x"⟩, ⟨"/r/modules/acme/x"⟩⟩], none) := by
  decide +kernel

end Session

end PluginManager
