import PluginManager.Proofs.Install.Run

/-!
# An operation that stops

An action that fails ends the operation, in the middle of a copy as it may be.

* `Layout.StoppedAt`: what is finished, what is half done and what has not begun.
* `stopped_of_run_eq_error`: **a failure stops at one entry**.
* `stopped_elsewhere`: what is half done lies elsewhere where a target root is followed through a
  destination.
-/

namespace PluginManager

open FileSystem

/-- An operation stopped at `c`: `fs₁` is what the entries before `c` left. -/
structure Layout.StoppedAt (L : Layout) (before : List Component) (c : Component)
    (after : List Component) (fs fs₁ fs' : FileSystem) : Prop where
  finished : ∀ b ∈ before, L.destination b ≠ L.destination c →
    SameTree (L.destination b) fs₁ fs'
  notBegun : ∀ d ∈ after, (∀ b ∈ before ++ [c], L.destination b ≠ L.destination d) →
    SameTree (L.destination d) fs fs'
  touched : Touched ((before ++ [c]).map L.destination) fs fs'

namespace Layout.Approachable

variable {L : Layout} {fs fs₁ fs' : FileSystem} {op : Operation} {before after : List Component}
  {c : Component} {e : Failure}

/-- What is left where a run stops. -/
theorem stoppedAt (h : L.Approachable fs) (hsplit : L.components = before ++ c :: after)
    (hdone : ((before.map L.action).forM op.act : Task Unit) fs = .ok () fs₁)
    (hfail : op.act (L.action c) fs₁ = .error e fs') : L.StoppedAt before c after fs fs₁ fs' := by
  have hbefore : ∀ b ∈ before, b ∈ L.components := fun b hb => by simp [hsplit, hb]
  have hc : c ∈ L.components := by simp [hsplit]
  have hafter : ∀ d ∈ after, d ∈ L.components := fun d hd => by simp [hsplit, hd]
  have ht₁ := (h.leaves_run hbefore).ok () fs₁ hdone
  have h₁ := h.of_keeps (.of_touched ht₁ (exists_of_mem_map hbefore))
  have ht := (h₁.leaves_act hc).error e fs' hfail
  have htouched : Touched ((before ++ [c]).map L.destination) fs fs' := by
    rw [List.map_append]
    refine (ht₁.mono fun d hd => List.mem_append_left _ hd).trans (ht.mono fun d hd => ?_)
    exact List.mem_append_right _ hd
  refine ⟨fun b hb hne => ?_, fun d hd hne => ?_, htouched⟩
  · refine ht.sameTree fun l hl => ?_
    rw [List.mem_singleton.mp hl]
    exact (h.destinations b (hbefore b hb) c hc).resolve_left hne
  · refine htouched.sameTree fun l hl => ?_
    obtain ⟨b, hb, rfl⟩ := List.mem_map.mp hl
    have hmem : b ∈ L.components := by
      rcases List.mem_append.mp hb with hb' | hb'
      · exact hbefore b hb'
      · rw [List.mem_singleton.mp hb']
        exact hc
    exact (h.destinations d (hafter d hd) b hmem).resolve_left fun heq => hne b hb heq.symm

end Layout.Approachable

namespace Session

variable {L : Layout} {fs fs' : FileSystem} {op : Operation} {act : Action → Task Unit}
  {t : Targets} {s s' : Session} {p root : Path} {author : String} {cs ds : List Component}
  {actions : List Action} {m : Manifest} {e : Failure}

/-- What carrying out comes to for some entries of a manifest. -/
def carryOutEntries (act : Action → Task Unit) (t : Targets) (root : Path) (author : String)
    (cs : List Component) (s : Session) (fs : FileSystem) :
    Except Failure (List Action) × Session × FileSystem :=
  match plan fs t root author cs s with
  | (.error e, s) => (.error e, s, fs)
  | (.ok actions, s) =>
    match (actions.forM act : Task Unit) fs with
    | .ok _ fs => (.ok actions, s, fs)
    | .error e fs => (.error e, s, fs)

/-- Carrying out is loading, and then carrying out all entries. -/
theorem carryOut_of_load (h : load fs p = .ok (root, m)) :
    carryOut act t p s fs = carryOutEntries act t root m.author m.installs s fs := by
  rw [carryOut, loadAndPlan, h]
  rfl

theorem carryOutEntries_of_plan (hplan : plan fs t root author cs s = (.ok actions, s'))
    (hrun : (actions.forM act : Task Unit) fs = .ok () fs') :
    carryOutEntries act t root author cs s fs = (.ok actions, s', fs') := by
  simp only [carryOutEntries, hplan, hrun]

/-- What is planned for the first entries of a plan is planned for them alone. -/
theorem exists_plan_of_append
    (hroots : ∀ c ∈ L.components, s'.roots c.role = some (L.target c.role))
    (hcs : ∀ c ∈ cs, c ∈ L.components)
    (h : plan fs t (.ofLocation L.root) L.manifest.author (cs ++ ds) s = (.ok actions, s')) :
    ∃ s₁, plan fs t (.ofLocation L.root) L.manifest.author cs s =
      (.ok (cs.map L.action), s₁) := by
  rw [plan_append] at h
  split at h
  · exact absurd (Prod.mk.inj h).1 (by simp)
  · rename_i actions₁ s₁ hfirst
    split at h
    · exact absurd (Prod.mk.inj h).1 (by simp)
    · rename_i actions₂ s₂ hrest
      obtain rfl := (Prod.mk.inj h).2
      obtain ⟨-, hsome, hactions⟩ := exists_of_plan hfirst
      obtain ⟨hext, -, -⟩ := exists_of_plan hrest
      refine ⟨s₁, ?_⟩
      rw [hfirst, hactions]
      congr 2
      refine List.map_congr_left fun c hc => ?_
      obtain ⟨q, hq⟩ := Option.isSome_iff_exists.mp (hsome c hc)
      have hkept := hext _ _ hq
      rw [hroots c (hcs c hc)] at hkept
      rw [target_eq hq, Layout.action, Option.some.inj hkept]

/-- **A failure stops at one entry.**  The entries before it are carried out as they would be alone,
and what they put in place is there, unless it was the place of the one that failed.  What only
later entries have as their place is as it was.  All else that happened lies at the place of the
one that failed, or is a directory made above a place. -/
theorem stopped_of_run_eq_error (op : Operation) (hwf : fs.WellFormed)
    (hload : load fs p = .ok (.ofLocation L.root, L.manifest)) (hd : L.Direct fs)
    (hroots : ∀ c ∈ L.components, s'.roots c.role = some (L.target c.role))
    (hplan : plan fs t (.ofLocation L.root) L.manifest.author L.manifest.installs s =
      (.ok actions, s'))
    (h : op.run t p s fs = (.error e, s', fs')) :
    actions = L.components.map L.action ∧ ∃ before c after s₁ fs₁,
      L.components = before ++ c :: after ∧
      carryOutEntries op.act t (.ofLocation L.root) L.manifest.author before s fs =
        (.ok (before.map L.action), s₁, fs₁) ∧
      op.act (L.action c) fs₁ = .error e fs' ∧ L.StoppedAt before c after fs fs₁ fs' := by
  have hactions := actions_of_plan hroots hplan
  have hrun : ((L.components.map L.action).forM op.act : Task Unit) fs = .error e fs' := by
    rw [op.run_eq, carryOut_of_load hload, carryOutEntries, hplan] at h
    dsimp only at h
    split at h
    · exact absurd (Prod.mk.inj h).1 (by simp)
    · rename_i e' fs₁ hrun
      obtain ⟨rfl, rfl⟩ : e' = e ∧ fs₁ = fs' := by simpa using h
      rwa [hactions] at hrun
  refine ⟨hactions, ?_⟩
  obtain ⟨done, a, rest, fs₁, hsplit, hdone, hfail⟩ := Task.exists_of_forM_eq_error hrun
  obtain ⟨before, tail, hcomponents, rfl, htail⟩ := List.map_eq_append_iff.mp hsplit
  obtain ⟨c, after, rfl, rfl, rfl⟩ := List.map_eq_cons_iff.mp htail
  rw [show L.manifest.installs = before ++ c :: after from hcomponents] at hplan
  obtain ⟨s₁, hfirst⟩ :=
    exists_plan_of_append hroots (fun b hb => by simp [hcomponents, hb]) hplan
  exact ⟨before, c, after, s₁, fs₁, hcomponents, carryOutEntries_of_plan hfirst hdone, hfail,
    (hd.approachable hwf hload).stoppedAt hcomponents hdone hfail⟩

/-! ## The second of two entries fails -/

/-- A backend repository at `/r` and a store repository at `/s`, which has a file where its modules
are to be. -/
def blockedStore : List (Location × Entry) :=
  [(["r", "gunicorn.conf.py"], emptyFile), (["s"], .directory 0o755),
    (["s", "nuxt.config.js"], emptyFile), (["s", "modules"], emptyFile),
    (["p", "manifest.json"], mixedManifest), (["p", "x"], .directory 0o755),
    (["p", "z"], .directory 0o755)]

def blockedWorld : FileSystem := acmeWorld blockedStore

def blockedInstall : Except Failure (List Action) × Session × FileSystem :=
  install .copy (targetsAt "/r" "" "/s") ⟨"/p"⟩ .start blockedWorld

def blockedLayout : Layout where
  root := ["p"]
  manifest := ⟨"demo", "acme", none, [⟨"x", .backend, "x"⟩, ⟨"z", .store, "z"⟩]⟩
  target r := if r = .store then ⟨"/s"⟩ else ⟨"/r"⟩
  place r := if r = .store then ["s"] else ["r"]
  origin c := ["p", c.name]

theorem wellFormed_blockedWorld : blockedWorld.WellFormed :=
  wellFormed_of_keys (by decide +kernel) (by decide +kernel)

theorem direct_blockedLayout : blockedLayout.Direct blockedWorld := by
  have hcomponents : ∀ c ∈ blockedLayout.components,
      c = ⟨"x", .backend, "x"⟩ ∨ c = ⟨"z", .store, "z"⟩ := by
    intro c hc
    simpa [Layout.components, blockedLayout] using hc
  refine ⟨by decide, fun c hc => ?_, by decide +kernel, fun c hc => ?_, fun c hc d hd => ?_⟩
  · rcases hcomponents c hc with rfl | rfl
    · exact Layout.route_of_isSome wellFormed_blockedWorld rfl (by decide +kernel)
        (by decide +kernel) (by decide +kernel)
    · exact Layout.route_of_isSome wellFormed_blockedWorld rfl (by decide +kernel)
        (by decide +kernel) (by decide +kernel)
  · rcases hcomponents c hc with rfl | rfl
    · exact FileSystem.noLinks_of_inits (by decide +kernel)
    · exact FileSystem.noLinks_of_inits (by decide +kernel)
  · have hapart : Apart ["r", "modules", "acme", "x"] ["s", "modules", "@acme", "z"] := by
      constructor <;> decide
    rcases hcomponents c hc with rfl | rfl <;> rcases hcomponents d hd with rfl | rfl
    · exact .inl rfl
    · exact .inr hapart
    · exact .inr hapart.symm
    · exact .inl rfl

theorem stopped_blockedLayout : ∃ e s' before c after s₁ fs₁,
    blockedInstall = (.error e, s', blockedInstall.2.2) ∧
      blockedLayout.components = before ++ c :: after ∧
      carryOutEntries (installAction .copy) (targetsAt "/r" "" "/s") ⟨"/p"⟩ "acme" before .start
        blockedWorld = (.ok (before.map blockedLayout.action), s₁, fs₁) ∧
      blockedLayout.StoppedAt before c after blockedWorld fs₁ blockedInstall.2.2 := by
  have hload : load blockedWorld ⟨"/p"⟩ =
      .ok (.ofLocation blockedLayout.root, blockedLayout.manifest) :=
    eq_ok_of_toOption (by decide +kernel)
  have hroots : ∀ c ∈ blockedLayout.components,
      blockedInstall.2.1.roots c.role = some (blockedLayout.target c.role) := by decide +kernel
  obtain ⟨e, he⟩ : ∃ e, blockedInstall.1 = .error e := by
    have hnone : blockedInstall.1.toOption = none := by decide +kernel
    cases hresult : blockedInstall.1 with
    | error e => exact ⟨e, rfl⟩
    | ok actions =>
      rw [hresult] at hnone
      exact absurd hnone (by simp [Except.toOption])
  have hrun : blockedInstall = (.error e, blockedInstall.2.1, blockedInstall.2.2) :=
    Prod.ext he rfl
  obtain ⟨actions, hplan⟩ : ∃ actions, loadAndPlan blockedWorld (targetsAt "/r" "" "/s") ⟨"/p"⟩
      .start = (.ok actions, blockedInstall.2.1) := by
    rcases carryOut_eq_error.mp hrun with ⟨hfailed, -⟩ | ⟨actions, hplan, -⟩
    · have hsome : (loadAndPlan blockedWorld (targetsAt "/r" "" "/s") ⟨"/p"⟩
          .start).1.toOption.isSome = true := by decide +kernel
      rw [hfailed] at hsome
      exact absurd hsome (by simp [Except.toOption])
    · exact ⟨actions, hplan⟩
  rw [loadAndPlan_of_load hload] at hplan
  obtain ⟨-, before, c, after, s₁, fs₁, hsplit, hbefore, -, hstopped⟩ :=
    stopped_of_run_eq_error (.install .copy) wellFormed_blockedWorld hload
      direct_blockedLayout hroots hplan hrun
  exact ⟨e, _, before, c, after, s₁, fs₁, hrun, hsplit, hbefore, hstopped⟩

/-! ## A root behind a destination -/

/-- The backend's root is given by a path through the destination, where there is a link. -/
def blockedDetourWorld : FileSystem :=
  acmeWorld ([(["r", "modules", "acme", "x"], .link ⟨"/r/sub"⟩),
    (["r", "sub"], .directory 0o755)] ++ blockedStore)

def blockedDetourInstall : Except Failure (List Action) × Session × FileSystem :=
  install .copy (targetsAt "/r/modules/acme/x/.." "" "/s") ⟨"/p"⟩ .start blockedDetourWorld

/-- Where a target root is followed through a destination, clearing the destination takes the root
elsewhere.  The first entry is copied to a place beside its destination, and a failure of the
second leaves it there. -/
theorem stopped_elsewhere :
    (IsName "acme" ∧ ¬ ["p"] <+: ["r"] ∧ ¬ ["r"] <+: ["p"]) ∧
      (blockedDetourWorld.find true ⟨"/r/modules/acme/x/.."⟩).toOption =
        some (["r"], .directory 0o755) ∧
      (∀ pre ∈ ["modules", "acme"].inits,
        blockedDetourWorld.isDirectoryAt ("r" :: pre) = true) ∧
      (loadAndPlan blockedDetourWorld (targetsAt "/r/modules/acme/x/.." "" "/s") ⟨"/p"⟩
        .start).1.toOption = some [⟨.backend, ⟨"/p/x"⟩, ⟨"/r/modules/acme/x/../modules/acme/x"⟩⟩,
          ⟨.store, ⟨"/p/z"⟩, ⟨"/s/modules/@acme/z"⟩⟩] ∧
      blockedDetourInstall.1.toOption = none ∧
      blockedDetourWorld.lookup ["r", "modules", "acme", "modules"] = none ∧
      blockedDetourInstall.2.2.lookup ["r", "modules", "acme", "modules"] =
        some (.directory newDirectoryMode) ∧
      ¬ ["r", "modules", "acme", "modules"] <+: ["r", "modules", "acme", "x"] := by
  decide +kernel

end Session

end PluginManager
