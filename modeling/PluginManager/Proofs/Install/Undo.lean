import PluginManager.Proofs.Install.Run
import PluginManager.Proofs.Install.Repeat

/-!
# Uninstalling

Nothing records what an install wrote.  An uninstall takes away what is at the destinations, which
it works out as the install did.

* `Approachable.removed_of_run`: **what a run of removals leaves**, and that it can be made again.
* `Approachable.exists_run`: where the ways are clear, every destination is cleared.
* `Settled.exists_undone`: **what was installed can be uninstalled**, as it leaves the ways clear.
* `uninstall_undoes`: **an uninstall takes away just what is computed**, after an install too.
-/

namespace PluginManager

open FileSystem

namespace Layout

variable {L : Layout} {fs fs' fs'' fs₁ : FileSystem} {l : Location} {c : Component}
  {cs ds : List Component} {mode : InstallMode}

/-- All that was at the destinations is gone, and nothing else is different. -/
structure Cleared (L : Layout) (fs fs' : FileSystem) : Prop where
  gone : ∀ l, ¬ L.Off l → fs'.lookup l = none
  changes : ChangesOnly (fun l => ¬ L.Off l) fs fs'

/-- What an install and an uninstall leave: nothing at the destinations, directories above them, and
all else as it was. -/
structure Undone (L : Layout) (fs fs' : FileSystem) : Prop where
  gone : ∀ l, ¬ L.Off l → fs'.lookup l = none
  away : ∀ l, L.Off l → fs'.lookup l =
    if fs.lookup l = none ∧ L.Encloses l then some (.directory newDirectoryMode) else fs.lookup l

theorem Installed.undone (h : L.Installed mode fs fs') (h' : L.Cleared fs' fs'') :
    L.Undone fs fs'' := by
  refine ⟨h'.gone, fun l hl => ?_⟩
  rw [h'.changes.lookup l (not_not_intro hl), h.away l hl]

/-! ## Runs of removals -/

/-- What a run of removals over `cs` leaves. -/
structure Removed (L : Layout) (cs : List Component) (fs fs' : FileSystem) : Prop where
  changes : ChangesOnly (fun l => ∃ d ∈ cs.map L.destination, d <+: l) fs fs'
  gone : ∀ c ∈ cs, fs'.treeAt (L.destination c) = .empty
  wellFormed : fs'.WellFormed

namespace Removed

theorem refl (hwf : fs.WellFormed) : L.Removed [] fs fs :=
  ⟨.refl _ fs, fun c hc => absurd hc (by simp), hwf⟩

theorem trans (h : L.Removed cs fs fs₁) (h' : L.Removed ds fs₁ fs') :
    L.Removed (cs ++ ds) fs fs' := by
  have hleft : ∀ l ∈ cs.map L.destination, l ∈ (cs ++ ds).map L.destination := by
    intro l hl
    rw [List.map_append]
    exact List.mem_append_left _ hl
  have hright : ∀ l ∈ ds.map L.destination, l ∈ (cs ++ ds).map L.destination := by
    intro l hl
    rw [List.map_append]
    exact List.mem_append_right _ hl
  refine ⟨?_, fun c hc => ?_, h'.wellFormed⟩
  · exact (h.changes.mono fun l ⟨d, hd, hdl⟩ => ⟨d, hleft d hd, hdl⟩).trans
      (h'.changes.mono fun l ⟨d, hd, hdl⟩ => ⟨d, hright d hd, hdl⟩)
  · rcases List.mem_append.mp hc with hc | hc
    · -- What the first run took away, the second does not bring back.
      funext r
      by_cases hin : ∃ d ∈ ds.map L.destination, d <+: L.destination c ++ r
      · obtain ⟨d, hd, r', hr'⟩ := hin
        obtain ⟨b, hb, rfl⟩ := List.mem_map.mp hd
        rw [FileSystem.treeAt, ← hr']
        exact congrFun (h'.gone b hb) r'
      · rw [FileSystem.treeAt, h'.changes.lookup _ hin]
        exact congrFun (h.gone c hc) r
    · exact h'.gone c hc

theorem cleared (h : L.Removed L.components fs fs') : L.Cleared fs fs' := by
  refine ⟨fun l hl => ?_, h.changes.mono fun l ⟨d, hd, hdl⟩ hoff => ?_⟩
  · simp only [Off, not_forall, not_not] at hl
    obtain ⟨c, hc, r, rfl⟩ := hl
    exact congrFun (h.gone c hc) r
  · obtain ⟨c, hc, rfl⟩ := List.mem_map.mp hd
    exact hoff c hc hdl

end Removed

namespace Approachable

section

variable (h : L.Approachable fs) (hcs : ∀ c ∈ cs, c ∈ L.components)

include h hcs

theorem of_removed (hr : L.Removed cs fs fs') : L.Approachable fs' :=
  h.of_keeps (.of_touched (.of_changes hr.changes hr.wellFormed) (exists_of_mem_map hcs))

/-- The ways down stay as they are while destinations are cleared. -/
theorem way_of_removed (hr : L.Removed cs fs fs') (hc : c ∈ L.components) {pre : List String}
    (hpre : pre <+: L.names c) (hne : pre ≠ L.names c) :
    fs'.lookup (L.place c.role ++ pre) = fs.lookup (L.place c.role ++ pre) := by
  have hencloses := encloses_of_prefix hc hpre hne
  have hoff := h.off_of_encloses hencloses
  refine hr.changes.lookup _ ?_
  rintro ⟨l, hl, hprefix⟩
  obtain ⟨b, hb, rfl⟩ := List.mem_map.mp hl
  exact hoff b (hcs b hb) hprefix

end

/-- One removal. -/
theorem removed_of_uninstallAction (h : L.Approachable fs) (hc : c ∈ L.components)
    (hact : Session.uninstallAction (L.action c) fs = .ok () fs') : L.Removed [c] fs fs' := by
  have hremove := Task.forPath_eq_ok.mp hact
  rw [h.action_destination hc] at hremove
  obtain ⟨h', hput⟩ := (h.approach hc).of_removeAll hremove
  refine ⟨hput.changes.mono fun l hl => ⟨L.destination c, by simp, hl⟩, fun b hb => ?_,
    h'.wellFormed⟩
  rw [List.mem_singleton.mp hb]
  exact hput.tree

/-- **What a run of removals leaves.** -/
theorem removed_of_run (h : L.Approachable fs) (hcs : ∀ c ∈ cs, c ∈ L.components)
    (hrun : ((cs.map L.action).forM Session.uninstallAction : Task Unit) fs = .ok () fs') :
    L.Removed cs fs fs' := by
  induction cs generalizing fs with
  | nil =>
    obtain rfl := Task.forM_nil_eq_ok.mp hrun
    exact .refl h.wellFormed
  | cons c rest ih =>
    rw [List.map_cons] at hrun
    obtain ⟨fs₁, hfirst, hrest⟩ := Task.forM_cons_eq_ok.mp hrun
    have hc := hcs c List.mem_cons_self
    have hremoved := h.removed_of_uninstallAction hc hfirst
    have h₁ := h.of_removed (by simpa using hc) hremoved
    exact hremoved.trans (ih h₁ (fun d hd => hcs d (List.mem_cons_of_mem c hd)) hrest)

/-- **A run of removals that succeeded succeeds again**, and changes nothing. -/
theorem run_again (h : L.Approachable fs)
    (hrun : ((L.components.map L.action).forM Session.uninstallAction : Task Unit) fs =
      .ok () fs') :
    ((L.components.map L.action).forM Session.uninstallAction : Task Unit) fs' = .ok () fs' := by
  have hremoved := h.removed_of_run (fun _ hc => hc) hrun
  have h' := h.of_removed (fun _ hc => hc) hremoved
  refine Task.forM_eq_ok_of_forall fun a ha => ?_
  -- The removal succeeded once, in a file system with the same way.
  obtain ⟨fs₁, fs₂, ⟨cs, hcs, h₁⟩, hact⟩ := Task.exists_of_forM_eq_ok
    (R := fun fs₁ => ∃ cs, (∀ c ∈ cs, c ∈ L.components) ∧ L.Removed cs fs fs₁) hrun
    ⟨[], by simp, .refl h.wellFormed⟩ (by
      rintro b hb fs₁ fs₂ ⟨cs, hcs, h₁⟩ hact
      obtain ⟨c, hc, rfl⟩ := List.mem_map.mp hb
      refine ⟨cs ++ [c], fun d hd => ?_,
        h₁.trans ((h.of_removed hcs h₁).removed_of_uninstallAction hc hact)⟩
      rcases List.mem_append.mp hd with hd | hd
      · exact hcs d hd
      · rwa [List.mem_singleton.mp hd]) ha
  obtain ⟨c, hc, rfl⟩ := List.mem_map.mp ha
  have hsite := (h.of_removed hcs h₁).approach hc
  have hsite' := h'.approach hc
  have hfree := congrFun (hremoved.gone c hc) []
  rw [FileSystem.treeAt, List.append_nil] at hfree
  have hremove := Task.forPath_eq_ok.mp hact
  rw [h.action_destination hc] at hremove
  rw [Session.uninstallAction, h.action_destination hc]
  refine Task.forPath_eq_ok.mpr (removeAll_again hsite.target hsite.place hsite.isName
    hsite.names_ne_nil hsite'.target hsite'.place hsite.noLinks (fun pre hpre hne => ?_) hfree
    hsite.off hremove)
  exact (h.way_of_removed (fun _ hc => hc) hremoved hc hpre hne).trans
    (h.way_of_removed hcs h₁ hc hpre hne).symm

/-- **Where the ways are clear** every destination is cleared. -/
theorem exists_run (h : L.Approachable fs) (hcs : ∀ c ∈ cs, c ∈ L.components)
    (hway : ∀ c ∈ cs, Clear fs (L.place c.role) (L.names c) ∧ Fits (L.target c.role) (L.names c)) :
    ∃ fs', ((cs.map L.action).forM Session.uninstallAction : Task Unit) fs = .ok () fs' := by
  induction cs generalizing fs with
  | nil => exact ⟨fs, rfl⟩
  | cons c rest ih =>
    have hc := hcs c List.mem_cons_self
    obtain ⟨hclear, hfits⟩ := hway c List.mem_cons_self
    have hsite := h.approach hc
    have hact : Session.uninstallAction (L.action c) fs =
        .ok () (fs.without (L.destination c)) := by
      rw [Session.uninstallAction, h.action_destination hc]
      exact Task.forPath_eq_ok.mpr (removeAll_of_clear hsite.target hsite.place hsite.isName
        hsite.names_ne_nil hclear hfits hsite.off)
    have hremoved := h.removed_of_uninstallAction hc hact
    have hone : ∀ b ∈ [c], b ∈ L.components := by simpa using hc
    have hrest : ∀ d ∈ rest, d ∈ L.components := fun d hd => hcs d (List.mem_cons_of_mem c hd)
    obtain ⟨fs', hrun⟩ := ih (h.of_removed hone hremoved) hrest fun d hd => by
      obtain ⟨hclear', hfits'⟩ := hway d (List.mem_cons_of_mem c hd)
      refine ⟨fun pre hpre hne => ?_, hfits'⟩
      rw [FileSystem.isDirectoryAt, h.way_of_removed hone hremoved (hrest d hd) hpre hne]
      exact hclear' pre hpre hne
    exact ⟨fs', Task.forM_cons_eq_ok.mpr ⟨_, hact, hrun⟩⟩

end Approachable

/-! ## After an install -/

theorem Settled.fits_of_installAction (h : L.Settled fs) (hc : c ∈ L.components)
    (hact : Session.installAction mode (L.action c) fs = .ok () fs') :
    Fits (L.target c.role) (L.names c) := by
  obtain ⟨fs₁, hremove, hput⟩ := installAction_eq_ok.mp hact
  rw [h.approachable.action_destination hc] at hremove hput
  cases mode with
  | copy => exact (h.ready hc).fits_of_copy hremove hput
  | link => exact ((h.ready hc).laid_of_link hremove hput).2.1

/-- Every way that was taken fits. -/
theorem Settled.fits_of_run (h : L.Settled fs)
    (hrun : ((L.components.map L.action).forM (Session.installAction mode) : Task Unit) fs =
      .ok () fs') (hc : c ∈ L.components) : Fits (L.target c.role) (L.names c) := by
  obtain ⟨fs₁, fs₂, h₁, hact⟩ := Task.exists_of_forM_eq_ok (R := L.Settled) hrun h
    (by
      intro a ha fs₁ fs₂ h₁ hact
      obtain ⟨d, hd, rfl⟩ := List.mem_map.mp ha
      exact h₁.of_spares (h₁.spares_of_installAction hd hact)) (List.mem_map_of_mem hc)
  exact h₁.fits_of_installAction hc hact

/-- A component that is laid is there. -/
theorem Settled.laid_ne_none (h : L.Settled fs) (hc : c ∈ L.components) :
    L.laid mode fs c [] ≠ none := by
  cases mode with
  | copy =>
    rw [laid, FileSystem.treeAt, List.append_nil]
    exact lookup_ne_none (h.origin c hc)
  | link => simp [laid, Tree.leaf]

/-- **An install leaves the ways clear.** -/
theorem Settled.clear_of_installed (h : L.Settled fs) (hi : L.Installed mode fs fs')
    (hwf : fs'.WellFormed) (hc : c ∈ L.components) :
    Clear fs' (L.place c.role) (L.names c) := by
  obtain ⟨last, hlast, htree⟩ := hi.tree c hc
  have hthere : fs'.lookup (L.destination c) ≠ none := by
    have htop := congrFun htree []
    rw [FileSystem.treeAt, List.append_nil] at htop
    rw [htop]
    exact h.laid_ne_none (mem_of_lastAt hlast)
  intro pre hpre hne
  obtain ⟨rest, hrest⟩ := hpre
  have hrne : rest ≠ [] := by
    rintro rfl
    exact hne (by rw [← hrest, List.append_nil])
  refine hwf.isDirectoryAt hrne ?_
  rwa [List.append_assoc, hrest]

/-- Uninstalling in `fs'` lists all components and leaves `fs''`: in a session that has the roots,
and in one that comes to them in `fs` by markers past the destinations. -/
def Uninstalls (L : Layout) (p : Path) (fs fs' fs'' : FileSystem) : Prop :=
  ∀ t s s', (∀ c ∈ L.components, s'.roots c.role = some (L.target c.role)) →
    s = s' ∨ L.Marked fs ∧ (∃ actions, Session.loadAndPlan fs t p s = (.ok actions, s')) →
    Session.uninstall t p s fs' = (.ok (L.components.map L.action), s', fs'')

theorem Settled.uninstalls {p : Path} (h : L.Settled fs) (hs : L.Spares fs fs')
    (hr : L.Reread fs p) (hload : Session.load fs p = .ok (.ofLocation L.root, L.manifest))
    (hrun : ((L.components.map L.action).forM Session.uninstallAction : Task Unit) fs' =
      .ok () fs'') : L.Uninstalls p fs fs' fs'' := fun _ _ _ hroots hsession =>
  Session.carryOut_eq_ok.mpr ⟨Session.loadAndPlan_again h hs hr hload hroots hsession, hrun⟩

/-- **What was installed can be uninstalled**, and no more than the directories above is left. -/
theorem Settled.exists_undone {p : Path} (h : L.Settled fs) (hr : L.Reread fs p)
    (hload : Session.load fs p = .ok (.ofLocation L.root, L.manifest))
    (hrun : ((L.components.map L.action).forM (Session.installAction mode) : Task Unit) fs =
      .ok () fs') : ∃ fs'', L.Undone fs fs'' ∧ L.Uninstalls p fs fs' fs'' := by
  have hinstalled := h.installed_of_run (.refl h.wellFormed) hrun
  have hspares := h.spares_of_run Settled.spares_of_installAction (fun _ hc => hc) hrun
  have hafter := (h.of_spares hspares).approachable
  obtain ⟨fs'', hrun'⟩ := hafter.exists_run (fun _ hc => hc) fun c hc =>
    ⟨h.clear_of_installed hinstalled hspares.wellFormed hc, h.fits_of_run hrun hc⟩
  exact ⟨fs'', hinstalled.undone (hafter.removed_of_run (fun _ hc => hc) hrun').cleared,
    h.uninstalls hspares hr hload hrun'⟩

end Layout

namespace Session

variable {L : Layout} {fs : FileSystem} {t : Targets} {s s' : Session} {p : Path}

/-- **An uninstall takes away just what is computed.**  What is at the destinations is gone, nothing
else is different, and a second uninstall succeeds and changes nothing.  An uninstall after an
install succeeds with the same actions and leaves what was there before the install, less what was
at the destinations and with the directories above them. -/
theorem uninstall_undoes (hwf : fs.WellFormed)
    (hload : load fs p = .ok (.ofLocation L.root, L.manifest)) (hd : L.Direct fs)
    (hroots : ∀ c ∈ L.components, s'.roots c.role = some (L.target c.role)) :
    (∀ actions fs', uninstall t p s fs = (.ok actions, s', fs') →
      actions = L.components.map L.action ∧ L.Cleared fs fs' ∧
        (L.Confined fs → L.Reread fs p → L.Uninstalls p fs fs' fs')) ∧
    ∀ mode actions fs', install mode t p s fs = (.ok actions, s', fs') → L.Confined fs →
      L.Reread fs p → actions = L.components.map L.action ∧
        ∃ fs'', L.Undone fs fs'' ∧ L.Uninstalls p fs fs' fs'' := by
  have happroachable := hd.approachable hwf hload
  have hread := (load_eq_ok.mp hload).2
  refine ⟨fun actions fs' h => ?_, fun mode actions fs' h hc hr => ?_⟩
  · obtain ⟨hactions, hrun⟩ := run_of_carryOut hload hroots h
    refine ⟨hactions, (happroachable.removed_of_run (fun _ hc => hc) hrun).cleared,
      fun hc hr => ?_⟩
    have hsettled := hc.settled hwf hread
    exact hsettled.uninstalls (hsettled.spares_of_run
      Layout.Settled.spares_of_uninstallAction (fun _ hc => hc) hrun) hr hload
      (happroachable.run_again hrun)
  · obtain ⟨hactions, hrun⟩ := run_of_carryOut hload hroots h
    exact ⟨hactions, (hc.settled hwf hread).exists_undone hr hload hrun⟩

def twofoldUninstall : Except Failure (List Action) × Session × FileSystem :=
  uninstall repositoryTargets ⟨"/p"⟩ .start Layout.twofoldWorld

theorem uninstall_undoes_twofoldInstall :
    Layout.twofoldLayout.Cleared Layout.twofoldWorld twofoldUninstall.2.2 ∧
      ∃ fs'', Layout.twofoldLayout.Undone Layout.twofoldWorld fs'' ∧
        uninstall repositoryTargets ⟨"/p"⟩ twofoldInstall.2.1 twofoldInstall.2.2 =
          (.ok twofoldActions, twofoldInstall.2.1, fs'') ∧
        uninstall repositoryTargets ⟨"/p"⟩ .start twofoldInstall.2.2 =
          (.ok twofoldActions, twofoldInstall.2.1, fs'') := by
  have hconfined := Layout.confined_twofoldLayout
  have huninstall : twofoldUninstall =
      (.ok twofoldActions, twofoldUninstall.2.1, twofoldUninstall.2.2) :=
    Prod.ext (eq_ok_of_toOption (by decide +kernel)) rfl
  have hroots : ∀ c ∈ Layout.twofoldLayout.components,
      twofoldUninstall.2.1.roots c.role = some (Layout.twofoldLayout.target c.role) := by
    decide +kernel
  obtain ⟨hclears, -⟩ := uninstall_undoes (t := repositoryTargets) (s := .start)
    Layout.wellFormed_twofoldWorld load_twofoldWorld hconfined.direct hroots
  obtain ⟨-, hundoes⟩ := uninstall_undoes (t := repositoryTargets) (s := .start)
    Layout.wellFormed_twofoldWorld load_twofoldWorld hconfined.direct roots_twofoldInstall
  obtain ⟨-, hcleared, -⟩ := hclears _ _ huninstall
  obtain ⟨hactions, fs'', hundone, hagain⟩ :=
    hundoes .copy _ _ twofoldInstall_eq hconfined reread_twofoldLayout
  have hplan : loadAndPlan Layout.twofoldWorld repositoryTargets ⟨"/p"⟩ .start =
      (.ok twofoldActions, twofoldInstall.2.1) := (carryOut_eq_ok.mp twofoldInstall_eq).1
  rw [hactions]
  exact ⟨hcleared, fs'', hundone, hagain _ _ _ roots_twofoldInstall (.inl rfl),
    hagain _ _ _ roots_twofoldInstall (.inr ⟨marked_twofoldLayout, _, hplan⟩)⟩

/-! ## What is not uninstalled -/

/-- Two components in place; a link at the destination of the first. -/
def detourPairWorld : FileSystem :=
  acmeWorld [(["r", "gunicorn.conf.py"], emptyFile),
    (["p", "manifest.json"], manifestOf "[\"x\",\"backend\"],[\"y\",\"backend\"]"),
    (["r", "modules", "acme", "x"], .link ⟨"/r/sub"⟩), (["r", "sub"], .directory 0o755),
    (["r", "modules", "acme", "y"], .directory 0o755), (["p", "x"], .directory 0o755),
    (["p", "y"], .directory 0o755)]

/-- Two uninstalls, the second in the session of the first or in another one. -/
def uninstallTwice (same : Bool) (p : Path) (fs : FileSystem) :
    Option (List Action) × Option (List Action) :=
  let (first, s, fs') := uninstall repositoryTargets p .start fs
  (first.toOption,
    (uninstall repositoryTargets p (if same then s else .start) fs').1.toOption)

/-- Where the root of a target is followed through a destination, a component that is in place stays
there.  What is read through a destination is not found a second time. -/
theorem uninstall_through_destination :
    (IsName "acme" ∧ ¬ ["p"] <+: ["r"] ∧ ¬ ["r"] <+: ["p"]) ∧
      (∀ fs ∈ [detourPairWorld, loopedWorld, linkedRootWorld, linkedManifestWorld,
        linkedMarkerWorld], fs.isDirectoryAt ["r", "modules", "acme"] = true) ∧
      glimpse .uninstall (targetsAt "/r/modules/acme/x/.." "" "") detourPairWorld
          ["r", "modules", "acme", "y"] =
        (some [⟨.backend, ⟨"/p/x"⟩, ⟨"/r/modules/acme/x/../modules/acme/x"⟩⟩,
          ⟨.backend, ⟨"/p/y"⟩, ⟨"/r/modules/acme/x/../modules/acme/y"⟩⟩],
          some (.directory 0o755), some (.directory 0o755)) ∧
      uninstallTwice true ⟨"/p"⟩ loopedWorld =
        (some [⟨.backend, ⟨"/p/x"⟩, ⟨"/r/modules/acme/x"⟩⟩], none) ∧
      uninstallTwice true ⟨"/r/modules/acme/x"⟩ linkedRootWorld =
        (some [⟨.backend, ⟨"/p/x"⟩, ⟨"/r/modules/acme/x"⟩⟩], none) ∧
      uninstallTwice true ⟨"/p"⟩ linkedManifestWorld =
        (some [⟨.backend, ⟨"/p/x"⟩, ⟨"/r/modules/acme/x"⟩⟩], none) ∧
      uninstallTwice false ⟨"/p"⟩ linkedMarkerWorld =
        (some [⟨.backend, ⟨"/p/x"⟩, ⟨"/r/modules/acme/x"⟩⟩], none) := by
  decide +kernel

end Session

end PluginManager
