import PluginManager.Proofs.Install.Effect
import PluginManager.Proofs.Install.Touch

/-!
# Planning comes before acting

Install and uninstall plan the whole manifest with the file system as it is, and act afterwards.

* `Operation`: either of them.
* `plan_eq_error_iff`: a plan fails at one entry, after all before it.
* `Session.History`: the sessions there can be, each with the file systems that it has seen.
* `History.checked`: **a root that is kept passed its check**, by induction on the calls.
* `changes_need_plan`: **nothing is changed before everything is planned**.
-/

namespace PluginManager

/-- What is done to a plugin. -/
inductive Operation where
  | install (mode : InstallMode)
  | uninstall
  deriving DecidableEq, Repr

namespace Operation

def act : Operation → Action → Task Unit
  | install mode => Session.installAction mode
  | uninstall => Session.uninstallAction

def run : Operation → Targets → Path → Session → FileSystem →
    Except Failure (List Action) × Session × FileSystem
  | install mode => Session.install mode
  | uninstall => Session.uninstall

theorem run_eq (op : Operation) : op.run = Session.carryOut op.act := by
  cases op <;> rfl

theorem failsOnFiles_act (op : Operation) (a : Action) : Task.FailsOnFiles (op.act a) := by
  cases op with
  | install mode => exact failsOnFiles_installAction mode a
  | uninstall => exact failsOnFiles_uninstallAction a

end Operation

namespace Session

variable {fs fs' : FileSystem} {seen : List FileSystem} {op : Operation} {t : Targets}
  {s s' s₁ s₂ : Session} {p root target : Path} {author : String} {role : Role}
  {c : Component} {cs ds before after : List Component} {actions : List Action} {e : Failure}
  {m : Manifest} {act : Action → Task Unit}

/-! ## Plans that fail -/

/-- The entries of a plan are resolved one after the other. -/
theorem plan_append (fs : FileSystem) (t : Targets) (root : Path) (author : String)
    (cs ds : List Component) (s : Session) : plan fs t root author (cs ++ ds) s =
      match plan fs t root author cs s with
      | (.error e, s') => (.error e, s')
      | (.ok actions, s') =>
        match plan fs t root author ds s' with
        | (.error e, s'') => (.error e, s'')
        | (.ok actions', s'') => (.ok (actions ++ actions'), s'') := by
  induction cs generalizing s with
  | nil =>
    simp only [List.nil_append, plan]
    cases plan fs t root author ds s with
    | mk result s' => cases result <;> rfl
  | cons c rest ih =>
    rw [List.cons_append, plan, plan]
    cases targetRoot fs t c.role s with
    | mk result s₁ =>
      cases result with
      | error e => rfl
      | ok target =>
        simp only [ih]
        cases plan fs t root author rest s₁ with
        | mk result s₂ =>
          cases result with
          | error e => rfl
          | ok actions =>
            simp only
            cases plan fs t root author ds s₂ with
            | mk result s₃ => cases result <;> rfl

/-- **A plan fails** at one entry, with all before it resolved. -/
theorem plan_eq_error_iff : plan fs t root author cs s = (.error e, s') ↔
    ∃ before c after actions s₁, cs = before ++ c :: after ∧
      plan fs t root author before s = (.ok actions, s₁) ∧
      targetRoot fs t c.role s₁ = (.error e, s') := by
  constructor
  · intro h
    induction cs generalizing s with
    | nil => exact absurd (Prod.mk.inj h).1 (by simp)
    | cons c rest ih =>
      rw [plan] at h
      split at h
      · rename_i e' s₁ htarget
        obtain ⟨rfl, rfl⟩ : e' = e ∧ s₁ = s' := by simpa using h
        exact ⟨[], c, rest, [], s, rfl, rfl, htarget⟩
      · rename_i target s₁ htarget
        split at h
        · rename_i e' s₂ hplan
          obtain ⟨rfl, rfl⟩ : e' = e ∧ s₂ = s' := by simpa using h
          obtain ⟨before, d, after, actions, s₃, rfl, hbefore, hd⟩ := ih hplan
          refine ⟨c :: before, d, after, actionFor root author target c :: actions, s₃, rfl, ?_, hd⟩
          rw [plan, htarget]
          simp only [hbefore]
        · exact absurd (Prod.mk.inj h).1 (by simp)
  · rintro ⟨before, c, after, actions, s₁, rfl, hbefore, hc⟩
    rw [plan_append, hbefore]
    simp only [plan, hc]

theorem carryOut_eq_error : carryOut act t p s fs = (.error e, s', fs') ↔
    loadAndPlan fs t p s = (.error e, s') ∧ fs = fs' ∨
      ∃ actions, loadAndPlan fs t p s = (.ok actions, s') ∧
        (actions.forM act : Task Unit) fs = .error e fs' := by
  rw [carryOut]
  constructor
  · intro h
    split at h
    · rename_i e' s₁ hplan
      obtain ⟨rfl, rfl, rfl⟩ : e' = e ∧ s₁ = s' ∧ fs = fs' := by simpa using h
      exact .inl ⟨hplan, rfl⟩
    · rename_i actions s₁ hplan
      split at h
      · exact absurd h (by simp)
      · rename_i e' fs₁ hrun
        obtain ⟨rfl, rfl, rfl⟩ : e' = e ∧ s₁ = s' ∧ fs₁ = fs' := by simpa using h
        exact .inr ⟨actions, hplan, hrun⟩
  · rintro (⟨hplan, rfl⟩ | ⟨actions, hplan, hrun⟩)
    · simp only [hplan]
    · simp only [hplan, hrun]

/-- An operation ends with its plan, or with what the run of its actions leaves. -/
theorem run_cases {result : Except Failure (List Action)}
    (h : op.run t p s fs = (result, s', fs')) :
    (∃ e, loadAndPlan fs t p s = (.error e, s') ∧ fs = fs') ∨
      ∃ actions, loadAndPlan fs t p s = (.ok actions, s') ∧
        ∀ R, Task.Leaves (actions.forM op.act : Task Unit) fs R → R fs' := by
  rw [op.run_eq] at h
  cases result with
  | ok actions =>
    obtain ⟨hplan, hrun⟩ := carryOut_eq_ok.mp h
    exact .inr ⟨actions, hplan, fun R hleaves => hleaves.ok () fs' hrun⟩
  | error e =>
    rcases carryOut_eq_error.mp h with ⟨hplan, hsame⟩ | ⟨actions, hplan, hrun⟩
    · exact .inl ⟨e, hplan, hsame⟩
    · exact .inr ⟨actions, hplan, fun R hleaves => hleaves.error e fs' hrun⟩

theorem loadAndPlan_of_load (h : load fs p = .ok (root, m)) :
    loadAndPlan fs t p s = plan fs t root m.author m.installs s := by
  rw [loadAndPlan, h]

/-! ## Roots that were checked -/

/-- Every root that is kept passed its check in one of the file systems. -/
def Checked (s : Session) (seen : List FileSystem) : Prop :=
  ∀ role root, s.roots role = some root → ∃ fs ∈ seen, checkTarget fs root role = .ok ()

namespace Checked

theorem mono {seen' : List FileSystem} (h : s.Checked seen) (hseen : ∀ fs ∈ seen, fs ∈ seen') :
    s.Checked seen' := by
  intro role root hroot
  obtain ⟨fs, hfs, hcheck⟩ := h role root hroot
  exact ⟨fs, hseen fs hfs, hcheck⟩

variable {result : Except Failure Path} (h : s.Checked seen) (hfs : fs ∈ seen)

include h hfs

theorem of_targetRoot (ht : targetRoot fs t role s = (result, s')) : s'.Checked seen := by
  rw [targetRoot] at ht
  split at ht
  · obtain rfl : s = s' := (Prod.mk.inj ht).2
    exact h
  · split at ht
    · obtain rfl := (Prod.mk.inj ht).2
      exact h
    · split at ht
      · obtain rfl := (Prod.mk.inj ht).2
        exact h
      · rename_i root haccept
        obtain rfl := (Prod.mk.inj ht).2
        intro r q hq
        by_cases hr : r = role
        · obtain rfl : root = q := by simpa [Presets.set, hr] using hq
          exact ⟨fs, hfs, hr ▸ (acceptTarget_eq_ok_iff.mp haccept).2⟩
        · exact h r q (by simpa [Presets.set, hr] using hq)

theorem of_plan {result : Except Failure (List Action)}
    (hp : plan fs t root author cs s = (result, s')) : s'.Checked seen := by
  induction cs generalizing s result with
  | nil =>
    obtain rfl : s = s' := (Prod.mk.inj hp).2
    exact h
  | cons c rest ih =>
    rw [plan] at hp
    split at hp
    · rename_i htarget
      obtain rfl := (Prod.mk.inj hp).2
      exact h.of_targetRoot hfs htarget
    · rename_i htarget
      have h₁ := h.of_targetRoot hfs htarget
      split at hp
      · rename_i hrest
        obtain rfl := (Prod.mk.inj hp).2
        exact ih h₁ hrest
      · rename_i hrest
        obtain rfl := (Prod.mk.inj hp).2
        exact ih h₁ hrest

theorem of_loadAndPlan {result : Except Failure (List Action)}
    (hp : loadAndPlan fs t p s = (result, s')) : s'.Checked seen := by
  rw [loadAndPlan] at hp
  split at hp
  · obtain rfl : s = s' := (Prod.mk.inj hp).2
    exact h
  · exact h.of_plan hfs hp

theorem of_run {result : Except Failure (List Action)}
    (hrun : op.run t p s fs = (result, s', fs')) : s'.Checked seen := by
  rcases run_cases hrun with ⟨e, hplan, -⟩ | ⟨actions, hplan, -⟩
  · exact h.of_loadAndPlan hfs hplan
  · exact h.of_loadAndPlan hfs hplan

end Checked

/-- The sessions there can be, each with the file systems that its calls have seen.  Between two
calls anything may happen to the file system. -/
inductive History : Session → List FileSystem → Prop
  | start : History .start []
  | plan {s s' : Session} {seen : List FileSystem} {fs : FileSystem} {t : Targets} {root : Path}
      {author : String} {cs : List Component} {result : Except Failure (List Action)} :
      History s seen → Session.plan fs t root author cs s = (result, s') → History s' (fs :: seen)
  | run {s s' : Session} {seen : List FileSystem} {fs fs' : FileSystem} {op : Operation}
      {t : Targets} {p : Path} {result : Except Failure (List Action)} :
      History s seen → op.run t p s fs = (result, s', fs') → History s' (fs :: seen)

/-- **A root that is kept passed its check** in one of the calls. -/
theorem History.checked (h : History s seen) : s.Checked seen := by
  induction h with
  | start => exact fun role root hroot => absurd hroot (by simp [Session.start, Presets.none])
  | plan _ hplan ih =>
    exact (ih.mono fun fs hfs => List.mem_cons_of_mem _ hfs).of_plan List.mem_cons_self hplan
  | run _ hrun ih =>
    exact (ih.mono fun fs hfs => List.mem_cons_of_mem _ hfs).of_run List.mem_cons_self hrun

/-! ## All or nothing -/

/-- Where something is changed, everything is planned, and the actions are what changed it. -/
theorem exists_plan_of_ne {result : Except Failure (List Action)}
    (h : op.run t p s fs = (result, s', fs')) (hne : fs' ≠ fs) :
    ∃ root m actions, load fs p = .ok (root, m) ∧
      plan fs t root m.author m.installs s = (.ok actions, s') ∧
      ∀ R, Task.Leaves (actions.forM op.act : Task Unit) fs R → R fs' := by
  rcases run_cases h with ⟨e, -, hsame⟩ | ⟨actions, hplan, hleft⟩
  · exact absurd hsame.symm hne
  · rw [loadAndPlan] at hplan
    split at hplan
    · exact absurd (Prod.mk.inj hplan).1 (by simp)
    · rename_i root m hload
      exact ⟨root, m, actions, hload, hplan, hleft⟩

/-- **Nothing is changed before everything is planned.**  A manifest that cannot be loaded, and an
entry whose target is not accepted wherever in the manifest it is, end the operation with that
failure and leave the file system alone; so does every failure that is not one of the file system.
Where something is changed, each role of the manifest has a root that passed its check, in this call
or in an earlier one of the session. -/
theorem changes_need_plan (op : Operation) (t : Targets) (p : Path) (s : Session)
    (fs : FileSystem) :
    (∀ e, load fs p = .error e → op.run t p s fs = (.error e, s, fs)) ∧
      (∀ root m before c after actions s₁ e s₂, load fs p = .ok (root, m) →
        m.installs = before ++ c :: after →
        plan fs t root m.author before s = (.ok actions, s₁) →
        targetRoot fs t c.role s₁ = (.error e, s₂) → op.run t p s fs = (.error e, s₂, fs)) ∧
      (∀ e s' fs', op.run t p s fs = (.error e, s', fs') → e.isFile = false → fs' = fs) ∧
      ∀ seen, History s seen → ∀ result s' fs', op.run t p s fs = (result, s', fs') → fs' ≠ fs →
        ∃ root m, load fs p = .ok (root, m) ∧ ∀ c ∈ m.installs, ∃ target,
          s'.roots c.role = some target ∧
            ∃ fs₀ ∈ fs :: seen, checkTarget fs₀ target c.role = .ok () := by
  refine ⟨fun e hload => ?_,
    fun root m before c after actions s₁ e s₂ hload hsplit hbefore hc => ?_,
    fun e s' fs' hrun hkind => ?_, fun seen hseen result s' fs' hrun hne => ?_⟩
  · rw [op.run_eq]
    refine carryOut_eq_error.mpr (.inl ⟨?_, rfl⟩)
    rw [loadAndPlan, hload]
  · rw [op.run_eq]
    refine carryOut_eq_error.mpr (.inl ⟨?_, rfl⟩)
    rw [loadAndPlan_of_load hload, hsplit]
    exact plan_eq_error_iff.mpr ⟨before, c, after, actions, s₁, rfl, hbefore, hc⟩
  · rw [op.run_eq] at hrun
    rcases carryOut_eq_error.mp hrun with ⟨-, hsame⟩ | ⟨actions, -, hacts⟩
    · exact hsame.symm
    · have hfile := Task.failsOnFiles_forM op.failsOnFiles_act actions fs e fs' hacts
      rw [hkind] at hfile
      exact absurd hfile Bool.false_ne_true
  · obtain ⟨root, m, actions, hload, hplan, -⟩ := exists_plan_of_ne hrun hne
    obtain ⟨-, hroots, -⟩ := exists_of_plan hplan
    have hchecked : s'.Checked (fs :: seen) :=
      (hseen.checked.mono fun fs₀ h => List.mem_cons_of_mem fs h).of_run List.mem_cons_self hrun
    refine ⟨root, m, hload, fun c hc => ?_⟩
    obtain ⟨target, htarget⟩ := Option.isSome_iff_exists.mp (hroots c hc)
    exact ⟨target, htarget, hchecked c.role target htarget⟩

/-! ## A target that is not known -/

/-- A manifest by its components. -/
def manifestOf (installs : String) : Entry :=
  .file 0o644 (Text.encode ("[\"demo\",\"acme\",null,[" ++ installs ++ "]]"))

def mixedManifest : Entry := manifestOf "[\"x\",\"backend\"],[\"z\",\"store\"]"

def mixedWorld : FileSystem :=
  acmeWorld [(["r", "gunicorn.conf.py"], emptyFile), (["p", "manifest.json"], mixedManifest),
    (["p", "x"], .directory 0o755), (["p", "z"], .directory 0o755)]

theorem changes_need_plan_mixed :
    (∃ s₁, uninstall repositoryTargets ⟨"/p"⟩ .start mixedWorld =
        (.error (.invalid (.noTarget .store)), s₁, mixedWorld)) ∧
      twofoldInstall.2.2 ≠ Layout.twofoldWorld ∧
      checkTarget Layout.twofoldWorld ⟨"/r"⟩ .backend = .ok () := by
  obtain ⟨-, hentry, -, -⟩ :=
    changes_need_plan .uninstall repositoryTargets ⟨"/p"⟩ .start mixedWorld
  obtain ⟨-, -, -, hroots⟩ :=
    changes_need_plan (.install .copy) repositoryTargets ⟨"/p"⟩ .start Layout.twofoldWorld
  have hload : load mixedWorld ⟨"/p"⟩ =
      .ok (⟨"/p"⟩, ⟨"demo", "acme", none, [⟨"x", .backend, "x"⟩, ⟨"z", .store, "z"⟩]⟩) :=
    eq_ok_of_toOption (by decide +kernel)
  obtain ⟨s₁, hfirst, hnone⟩ : ∃ s₁, plan mixedWorld repositoryTargets ⟨"/p"⟩ "acme"
      [⟨"x", .backend, "x"⟩] .start = (.ok [⟨.backend, ⟨"/p/x"⟩, ⟨"/r/modules/acme/x"⟩⟩], s₁) ∧
        s₁.roots .store = none :=
    ⟨_, Prod.ext (eq_ok_of_toOption (by decide +kernel)) rfl, by decide +kernel⟩
  have hlast : targetRoot mixedWorld repositoryTargets .store s₁ =
      (.error (.invalid (.noTarget .store)), s₁) := by
    rw [targetRoot, hnone]
    rfl
  have hchanged : twofoldInstall.2.2 ≠ Layout.twofoldWorld := by
    intro heq
    have hstale : twofoldInstall.2.2.lookup ["r", "modules", "acme", "x", "stale"] ≠
        Layout.twofoldWorld.lookup ["r", "modules", "acme", "x", "stale"] := by decide +kernel
    exact hstale (by rw [heq])
  refine ⟨⟨s₁, hentry _ _ _ _ [] _ _ _ _ hload rfl hfirst hlast⟩, hchanged, ?_⟩
  obtain ⟨root, m, hload', htargets⟩ := hroots [] .start _ _ _ twofoldInstall_eq hchanged
  obtain ⟨-, rfl⟩ := Prod.mk.inj (Except.ok.inj (load_twofoldWorld.symm.trans hload'))
  have hmem : ⟨"x", .backend, "x"⟩ ∈ Layout.twofoldLayout.components := by decide
  obtain ⟨target, htarget, fs₀, hfs₀, hcheck⟩ := htargets _ hmem
  obtain rfl := Option.some.inj ((roots_twofoldInstall _ hmem).symm.trans htarget)
  obtain rfl := List.mem_singleton.mp hfs₀
  exact hcheck

end Session

end PluginManager
