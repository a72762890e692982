import PluginManager.Proofs.Install.Layout

/-!
# What an install leaves

An install takes the components one after the other.  Where several land at one place, each replaces
the one before, and the last stays.

* `laid_of_installAction`: one action lays its component.
* `Settled.run`: **what a run of actions leaves**, by induction on the components.
* `Layout.Installed`: the components are in place and nothing else is different.
* `installed_of_install`: **a successful install leaves just that**.
-/

namespace PluginManager

open FileSystem

namespace Layout

variable {L : Layout} {fs fs' fs₁ : FileSystem} {l : Location} {c d : Component}
  {cs : List Component} {mode : InstallMode} {act : Action → Task Unit}

/-! ## One action -/

/-- What installing a component puts at its destination. -/
def laid (L : Layout) (mode : InstallMode) (fs : FileSystem) (c : Component) : Tree :=
  match mode with
  | .copy => fs.treeAt (L.origin c)
  | .link => .leaf (.link (L.source c))

theorem installAction_eq_ok {a : Action} {u : Unit} :
    Session.installAction mode a fs = .ok u fs' ↔ ∃ fs₁, removeAll a.destination fs = .ok () fs₁ ∧
      match mode with
      | .copy => copyLevels pathLimit a.source a.destination fs₁ = .ok () fs'
      | .link => linkTo a.source a.destination fs₁ = .ok () fs' := by
  unfold Session.installAction
  rw [Task.bind_eq_ok]
  constructor
  · rintro ⟨_, fs₁, hremove, hput⟩
    refine ⟨fs₁, Task.forPath_eq_ok.mp hremove, ?_⟩
    cases mode <;> exact hput
  · rintro ⟨fs₁, hremove, hput⟩
    refine ⟨(), fs₁, Task.forPath_eq_ok.mpr hremove, ?_⟩
    cases mode <;> exact hput

/-- **An action lays its component.** -/
theorem Settled.laid_of_installAction (h : L.Settled fs) (hc : c ∈ L.components)
    (hact : Session.installAction mode (L.action c) fs = .ok () fs') :
    Site.Laid (L.destination c) (L.laid mode fs c) fs fs' := by
  obtain ⟨fs₁, hremove, hput⟩ := installAction_eq_ok.mp hact
  rw [h.approachable.action_destination hc] at hremove hput
  cases mode with
  | copy => exact (h.ready hc).laid_of_copy hremove hput
  | link => exact ((h.ready hc).laid_of_link hremove hput).1

theorem Settled.spares_of_installAction (h : L.Settled fs) (hc : c ∈ L.components)
    (hact : Session.installAction mode (L.action c) fs = .ok () fs') : L.Spares fs fs' := by
  have hdestination := h.approachable.action_destination hc
  have hleaves := (h.approachable.approach hc).leaves_installAction mode hdestination
  exact h.spares_of_touched hc (hleaves.ok () fs' hact)

theorem Settled.spares_of_uninstallAction (h : L.Settled fs) (hc : c ∈ L.components)
    (hact : Session.uninstallAction (L.action c) fs = .ok () fs') : L.Spares fs fs' := by
  have hdestination := h.approachable.action_destination hc
  have hleaves := (h.approachable.approach hc).leaves_uninstallAction hdestination
  exact h.spares_of_touched hc (hleaves.ok () fs' hact)

/-- The components are the same after a run, so the same trees are laid. -/
theorem Settled.laid_congr (h : L.Settled fs) (hs : L.Spares fs fs') (hc : c ∈ L.components) :
    L.laid mode fs' c = L.laid mode fs c := by
  cases mode with
  | link => rfl
  | copy =>
    obtain ⟨r, hr⟩ := h.within c hc
    have hsame := hs.plugin.append r
    rw [hr] at hsame
    exact hsame.treeAt

/-! ## A run -/

/-- Every action of a run spares what lies off the destinations, so the run does. -/
theorem Settled.spares_of_run (h : L.Settled fs)
    (hact : ∀ {fs fs' : FileSystem} {c : Component}, L.Settled fs → c ∈ L.components →
      act (L.action c) fs = .ok () fs' → L.Spares fs fs')
    (hcs : ∀ c ∈ cs, c ∈ L.components)
    (hrun : ((cs.map L.action).forM act : Task Unit) fs = .ok () fs') : L.Spares fs fs' := by
  induction cs generalizing fs with
  | nil =>
    obtain rfl := Task.forM_nil_eq_ok.mp hrun
    exact .refl h.wellFormed
  | cons c rest ih =>
    rw [List.map_cons] at hrun
    obtain ⟨fs₁, hfirst, hrest⟩ := Task.forM_cons_eq_ok.mp hrun
    have hspares := hact h (hcs c List.mem_cons_self) hfirst
    have hafter := ih (h.of_spares hspares) (fun d hd => hcs d (List.mem_cons_of_mem c hd)) hrest
    exact hspares.trans hafter

/-- The last of the components that land at a location. -/
def lastAt (L : Layout) (cs : List Component) (l : Location) : Option Component :=
  cs.reverse.find? fun c => L.destination c = l

theorem lastAt_cons (L : Layout) (c : Component) (cs : List Component) (l : Location) :
    L.lastAt (c :: cs) l = (L.lastAt cs l).or (if L.destination c = l then some c else none) := by
  rw [lastAt, List.reverse_cons, List.find?_append, lastAt]
  by_cases h : L.destination c = l
  · simp [h]
  · simp [h]

theorem exists_lastAt (L : Layout) (hc : c ∈ cs) :
    ∃ last, L.lastAt cs (L.destination c) = some last := by
  rw [← Option.isSome_iff_exists, lastAt, List.find?_isSome]
  exact ⟨c, List.mem_reverse.mpr hc, by simp⟩

theorem mem_of_lastAt (h : L.lastAt cs l = some c) : c ∈ cs :=
  List.mem_reverse.mp (List.mem_of_find?_eq_some h)

/-- What a run over `cs` leaves: the last component at each destination, and directories above. -/
structure Ran (L : Layout) (mode : InstallMode) (cs : List Component) (fs fs' : FileSystem) :
    Prop where
  spares : L.Spares fs fs'
  tree : ∀ d ∈ L.components, fs'.treeAt (L.destination d) =
    match L.lastAt cs (L.destination d) with
    | some c => L.laid mode fs c
    | none => fs.treeAt (L.destination d)
  made : ∀ c ∈ cs, ∀ l, l <+: L.destination c → l ≠ L.destination c → fs'.lookup l ≠ none

/-- The tree at a destination after one action. -/
theorem Settled.treeAt_of_laid (h : L.Settled fs) (hc : c ∈ L.components) (hd : d ∈ L.components)
    (hlaid : Site.Laid (L.destination c) (L.laid mode fs c) fs fs') :
    fs'.treeAt (L.destination d) =
      if L.destination c = L.destination d then L.laid mode fs c
      else fs.treeAt (L.destination d) := by
  split
  · rename_i heq
    rw [← heq, hlaid.tree]
  · rename_i hne
    have hapart := (h.destinations hc hd).resolve_left hne
    funext r
    refine hlaid.changes.lookup _ ?_
    rintro (hin | ⟨habove, -⟩)
    · exact (hapart.symm.append r).2 hin
    · exact (hapart.symm.append r).1 habove

/-- **What a run of actions leaves.** -/
theorem Settled.run (h : L.Settled fs) (hcs : ∀ c ∈ cs, c ∈ L.components)
    (hrun : ((cs.map L.action).forM (Session.installAction mode) : Task Unit) fs = .ok () fs') :
    L.Ran mode cs fs fs' := by
  induction cs generalizing fs with
  | nil =>
    obtain rfl := Task.forM_nil_eq_ok.mp hrun
    exact ⟨.refl h.wellFormed, fun _ _ => rfl, fun c hc => absurd hc (by simp)⟩
  | cons c rest ih =>
    rw [List.map_cons] at hrun
    obtain ⟨fs₁, hfirst, hrest⟩ := Task.forM_cons_eq_ok.mp hrun
    have hc := hcs c List.mem_cons_self
    have hlaid := h.laid_of_installAction hc hfirst
    have hspares := h.spares_of_installAction hc hfirst
    have hran := ih (h.of_spares hspares) (fun d hd => hcs d (List.mem_cons_of_mem c hd)) hrest
    refine ⟨hspares.trans hran.spares, fun d hd => ?_, ?_⟩
    · rw [hran.tree d hd, lastAt_cons]
      cases hlast : L.lastAt rest (L.destination d) with
      | some last =>
        have hmem := hcs last (List.mem_cons_of_mem c (mem_of_lastAt hlast))
        exact h.laid_congr hspares hmem
      | none =>
        rw [Option.none_or]
        have htree := h.treeAt_of_laid hc hd hlaid
        by_cases heq : L.destination c = L.destination d
        · rw [if_pos heq] at htree ⊢
          exact htree
        · rw [if_neg heq] at htree ⊢
          exact htree
    · intro d hd l hl hne
      rcases List.mem_cons.mp hd with rfl | hd
      · -- What was made above the first destination is still there.
        have hoff := h.approachable.off_of_encloses ⟨d, hc, hl, hne⟩
        cases he : fs.lookup l with
        | none =>
          rw [hran.spares.holds l _ hoff (hlaid.encloses l hl hne he)]
          simp
        | some e =>
          rw [(hspares.trans hran.spares).holds l e hoff he]
          simp
      · exact hran.made d hd l hl hne

/-! ## A whole install -/

instance (L : Layout) : DecidablePred L.Encloses := fun l =>
  inferInstanceAs (Decidable (∃ c ∈ L.components, l <+: L.destination c ∧ l ≠ L.destination c))

/-- The components are in place: at each destination the last that lands there, directories above
them where there was nothing, and nothing else is different. -/
structure Installed (L : Layout) (mode : InstallMode) (fs fs' : FileSystem) : Prop where
  tree : ∀ c ∈ L.components, ∃ last, L.lastAt L.components (L.destination c) = some last ∧
    fs'.treeAt (L.destination c) = L.laid mode fs last
  away : ∀ l, L.Off l → fs'.lookup l =
    if fs.lookup l = none ∧ L.Encloses l then some (.directory newDirectoryMode) else fs.lookup l

/-- A run over all components installs them, whatever was done at their destinations before. -/
theorem Settled.installed_of_run (h : L.Settled fs) (hs : L.Spares fs fs₁)
    (hrun : ((L.components.map L.action).forM (Session.installAction mode) : Task Unit) fs₁ =
      .ok () fs') : L.Installed mode fs fs' := by
  have hran := (h.of_spares hs).run (fun _ hc => hc) hrun
  have hspares := hs.trans hran.spares
  refine ⟨fun c hc => ?_, fun l hl => ?_⟩
  · obtain ⟨last, hlast⟩ := L.exists_lastAt hc
    refine ⟨last, hlast, ?_⟩
    rw [hran.tree c hc, hlast]
    exact h.laid_congr hs (mem_of_lastAt hlast)
  · split
    · rename_i hmissing
      obtain ⟨hnone, c, hc, hle, hne⟩ := hmissing
      rcases hspares.away l hl with hsame | ⟨-, -, hmade⟩
      · rw [hnone] at hsame
        exact absurd hsame (hran.made c hc l hle hne)
      · exact hmade
    · rename_i hkept
      rcases hspares.away l hl with hsame | ⟨hnone, hencloses, -⟩
      · exact hsame
      · exact absurd ⟨hnone, hencloses⟩ hkept

end Layout

namespace Session

variable {L : Layout} {fs fs' : FileSystem} {t : Targets} {s s' : Session} {p : Path}
  {actions : List Action} {mode : InstallMode} {act : Action → Task Unit}

/-- What a plan comes to for a layout. -/
theorem actions_of_plan
    (hroots : ∀ c ∈ L.components, s'.roots c.role = some (L.target c.role))
    (h : plan fs t (.ofLocation L.root) L.manifest.author L.manifest.installs s =
      (.ok actions, s')) : actions = L.components.map L.action := by
  obtain ⟨-, -, hactions⟩ := exists_of_plan h
  rw [hactions]
  refine List.map_congr_left fun c hc => ?_
  rw [target_eq (hroots c hc), Layout.action]

/-- The actions that were planned, and that they were carried out. -/
theorem run_of_carryOut (hload : load fs p = .ok (.ofLocation L.root, L.manifest))
    (hroots : ∀ c ∈ L.components, s'.roots c.role = some (L.target c.role))
    (h : carryOut act t p s fs = (.ok actions, s', fs')) :
    actions = L.components.map L.action ∧
      ((L.components.map L.action).forM act : Task Unit) fs = .ok () fs' := by
  obtain ⟨hplan, hrun⟩ := carryOut_eq_ok.mp h
  rw [loadAndPlan, hload] at hplan
  obtain rfl := actions_of_plan hroots hplan
  exact ⟨rfl, hrun⟩

/-- **What a successful install leaves.**  It lists one action for each entry.  At each destination
is the component of the last entry with that destination, as a copy of its tree or as a link to it.
Away from the destinations nothing is different, except that directories were made above them. -/
theorem installed_of_install (hwf : fs.WellFormed)
    (hload : load fs p = .ok (.ofLocation L.root, L.manifest)) (hc : L.Confined fs)
    (hroots : ∀ c ∈ L.components, s'.roots c.role = some (L.target c.role))
    (h : install mode t p s fs = (.ok actions, s', fs')) :
    actions = L.components.map L.action ∧ L.Installed mode fs fs' ∧ fs'.WellFormed := by
  obtain ⟨hactions, hrun⟩ := run_of_carryOut hload hroots h
  have hsettled := hc.settled hwf (load_eq_ok.mp hload).2
  exact ⟨hactions, hsettled.installed_of_run (.refl hwf) hrun,
    (hsettled.run (fun _ hc => hc) hrun).spares.wellFormed⟩

/-- A plugin with two entries for one place, installed over something. -/
def twofoldInstall : Except Failure (List Action) × Session × FileSystem :=
  install .copy repositoryTargets ⟨"/p"⟩ .start Layout.twofoldWorld

theorem load_twofoldWorld : load Layout.twofoldWorld ⟨"/p"⟩ =
    .ok (.ofLocation Layout.twofoldLayout.root, Layout.twofoldLayout.manifest) :=
  eq_ok_of_toOption (by decide +kernel)

def twofoldActions : List Action :=
  [⟨.backend, ⟨"/p/x"⟩, ⟨"/r/modules/acme/x"⟩⟩, ⟨.backend, ⟨"/p/new/x"⟩, ⟨"/r/modules/acme/x"⟩⟩]

theorem twofoldInstall_eq :
    twofoldInstall = (.ok twofoldActions, twofoldInstall.2.1, twofoldInstall.2.2) :=
  Prod.ext (eq_ok_of_toOption (by decide +kernel)) rfl

theorem roots_twofoldInstall : ∀ c ∈ Layout.twofoldLayout.components,
    twofoldInstall.2.1.roots c.role = some (Layout.twofoldLayout.target c.role) := by
  decide +kernel

theorem installed_twofoldLayout :
    twofoldInstall = (.ok twofoldActions, twofoldInstall.2.1, twofoldInstall.2.2) ∧
      twofoldInstall.2.2.treeAt ["r", "modules", "acme", "x"] =
        Layout.twofoldWorld.treeAt ["p", "new", "x"] := by
  obtain ⟨-, hinstalled, -⟩ := installed_of_install Layout.wellFormed_twofoldWorld
    load_twofoldWorld Layout.confined_twofoldLayout roots_twofoldInstall twofoldInstall_eq
  obtain ⟨last, hlast, htree⟩ := hinstalled.tree ⟨"x", .backend, "x"⟩ (by decide)
  have hnew : Layout.twofoldLayout.lastAt Layout.twofoldLayout.components
      ["r", "modules", "acme", "x"] = some ⟨"new/x", .backend, "x"⟩ := by decide
  obtain rfl : last = ⟨"new/x", .backend, "x"⟩ := Option.some.inj (hlast.symm.trans hnew)
  exact ⟨twofoldInstall_eq, htree⟩

/-! ## Paths through a destination -/

/-- A backend repository at `/r` and a plugin at `/p`, with `entries` in them. -/
def acmeWorld (entries : List (Location × Entry)) : FileSystem where
  entries :=
    [(["r"], .directory 0o755), (["r", "modules"], .directory 0o755),
      (["r", "modules", "acme"], .directory 0o755), (["p"], .directory 0o755)] ++ entries
  times := []
  clock := 0
  workingDirectory := []

def emptyFile : Entry := .file 0o644 []

/-- One backend component at `x`. -/
def acmeManifest : Entry :=
  .file 0o644 (Text.encode "[\"demo\",\"acme\",null,[[\"x\",\"backend\"]]]")

/-- The component is reached through its own destination, which leads back into the plugin. -/
def loopedWorld : FileSystem :=
  acmeWorld [(["r", "gunicorn.conf.py"], emptyFile), (["p", "manifest.json"], acmeManifest),
    (["r", "modules", "acme", "x"], .link ⟨"/p/src/x"⟩), (["p", "src"], .directory 0o755),
    (["p", "src", "x"], .directory 0o755), (["p", "src", "x", "plugin.py"], emptyFile),
    (["p", "x"], .link ⟨"../r/modules/acme/x"⟩)]

/-- A link at the destination; the root of the target is given by a path through it. -/
def detourWorld : FileSystem :=
  acmeWorld [(["r", "gunicorn.conf.py"], emptyFile), (["p", "manifest.json"], acmeManifest),
    (["r", "modules", "acme", "x"], .link ⟨"/r/sub"⟩), (["r", "sub"], .directory 0o755),
    (["p", "x"], .directory 0o755), (["p", "x", "plugin.py"], emptyFile)]

def detourTargets : Targets := ⟨Presets.none.set .backend ⟨"/r/modules/acme/x/.."⟩, none⟩

def loopedInstall : Except Failure (List Action) × Session × FileSystem :=
  install .copy repositoryTargets ⟨"/p"⟩ .start loopedWorld

def detourInstall : Except Failure (List Action) × Session × FileSystem :=
  install .copy detourTargets ⟨"/p"⟩ .start detourWorld

/-- Where a path goes through a destination, the install succeeds and the component is not there:
clearing the destination takes the component away, or takes the root of the target elsewhere. -/
theorem install_through_destination :
    (IsName "acme" ∧ ¬ ["p"] <+: ["r"] ∧ ¬ ["r"] <+: ["p"]) ∧
      (loopedWorld.isDirectoryAt ["r", "modules", "acme"] = true ∧
        (loopedWorld.find true ⟨"/r"⟩).toOption = some (["r"], .directory 0o755) ∧
        (loopedWorld.find true ⟨"/p/x"⟩).toOption = some (["p", "src", "x"], .directory 0o755) ∧
        loopedWorld.lookup ["p", "src", "x", "plugin.py"] = some emptyFile ∧
        loopedInstall.1.toOption = some [⟨.backend, ⟨"/p/x"⟩, ⟨"/r/modules/acme/x"⟩⟩] ∧
        loopedInstall.2.2.lookup ["r", "modules", "acme", "x", "plugin.py"] = none) ∧
      (detourWorld.isDirectoryAt ["r", "modules", "acme"] = true ∧
        (detourWorld.find true ⟨"/r/modules/acme/x/.."⟩).toOption =
          some (["r"], .directory 0o755) ∧
        (detourWorld.find true ⟨"/p/x"⟩).toOption = some (["p", "x"], .directory 0o755) ∧
        detourWorld.lookup ["p", "x", "plugin.py"] = some emptyFile ∧
        detourInstall.1.toOption =
          some [⟨.backend, ⟨"/p/x"⟩, ⟨"/r/modules/acme/x/../modules/acme/x"⟩⟩] ∧
        detourInstall.2.2.lookup ["r", "modules", "acme", "x", "plugin.py"] = none) := by
  decide +kernel

end Session

end PluginManager
