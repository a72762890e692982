import PluginManager.Proofs.FileSystem.Absolute
import PluginManager.Proofs.Install.Operation

/-!
# Asking for roots

A session asks for the root of a role when a manifest has a component of the role and none is kept
for it.  What is kept stays, whatever the calls that follow are and however they end.

* `pending`: the roles that a manifest makes a session ask for, in the order of their first
  components.
* `Answered`, `Refused`: how the questions go.
* `plan_eq_ok_iff_answered`, `plan_eq_error_iff_refused`: **what a plan asks**, by induction on the
  components.
* `plan_eq_of_pending`: nothing is asked or checked for any other role.
* `Session.Later`: the sessions that may follow, after any calls on any file systems.
* `Later.settled`: a root that is kept stays and is not asked for again.
* `roots_are_asked_once`: all of it for the sessions there can be.
-/

namespace PluginManager

/-! ## Questions -/

/-- The question for the role goes to the prompt. -/
def Targets.asks (t : Targets) (role : Role) : Bool :=
  (t.presets role).isNone && t.fallback.isSome

variable {fs fs' : FileSystem} {t t' : Targets} {role r : Role} {answer root p : Path}
  {asked asked' : List Role} {e : Failure}

theorem Targets.asked_of_answer {result : Except Failure Path}
    (h : t.answer asked role = (result, asked')) : asked' = asked ++ [role].filter t.asks := by
  rw [answer] at h
  split at h
  · rename_i preset hpreset
    obtain rfl := (Prod.mk.inj h).2
    simp [asks, hpreset]
  · rename_i hpreset
    split at h
    · rename_i hfallback
      obtain rfl := (Prod.mk.inj h).2
      simp [asks, hpreset, hfallback]
    · rename_i prompt hfallback
      obtain rfl := (Prod.mk.inj h).2
      simp [asks, hpreset, hfallback]

theorem isAbsolute_of_acceptTarget (h : acceptTarget fs answer role = .ok root) :
    root.isAbsolute = true :=
  FileSystem.isAbsolute_absolute (acceptTarget_eq_ok_iff.mp h).1

namespace Session

variable {s s' s'' s₁ : Session} {author : String} {c : Component} {cs : List Component}
  {rs : List Role} {actions : List Action} {seen : List FileSystem}

/-- The roles for which no root is kept, each at its first occurrence. -/
def pending (s : Session) (cs : List Component) : List Role :=
  ((cs.map Component.role).filter fun role => (s.roots role).isNone).eraseDups

theorem mem_pending : role ∈ s.pending cs ↔ s.roots role = none ∧ ∃ c ∈ cs, c.role = role := by
  rw [pending, List.mem_eraseDups, List.mem_filter, List.mem_map, Option.isNone_iff_eq_none,
    and_comm]

theorem pending_cons_of_some (h : s.roots c.role = some root) :
    s.pending (c :: cs) = s.pending cs := by
  rw [pending, List.map_cons, List.filter_cons_of_neg (by simp [h]), pending]

/-- Once there is a root for the first role, the others are still pending. -/
theorem pending_cons_of_none (h : s.roots c.role = none) (root : Path) (asked : List Role) :
    s.pending (c :: cs) = c.role :: pending ⟨s.roots.set c.role root, asked⟩ cs := by
  rw [pending, List.map_cons, List.filter_cons_of_pos (by simp [h]), List.eraseDups_cons, pending,
    List.filter_filter]
  congr 2
  refine List.filter_congr fun role _ => ?_
  by_cases hrole : role = c.role
  · simp [hrole, Presets.set]
  · simp [hrole, Presets.set]

/-- The roles are asked for one after the other; each answer is accepted and kept. -/
inductive Answered (fs : FileSystem) (t : Targets) : Session → List Role → Session → Prop
  | nil {s : Session} : Answered fs t s [] s
  | cons {s s' : Session} {role : Role} {rs asked : List Role} {answer root : Path} :
      s.roots role = none → t.answer s.asked role = (.ok answer, asked) →
      acceptTarget fs answer role = .ok root →
      Answered fs t ⟨s.roots.set role root, asked⟩ rs s' → Answered fs t s (role :: rs) s'

theorem answered_cons_iff : Answered fs t s (role :: rs) s' ↔ s.roots role = none ∧
    ∃ answer root asked, t.answer s.asked role = (.ok answer, asked) ∧
      acceptTarget fs answer role = .ok root ∧
        Answered fs t ⟨s.roots.set role root, asked⟩ rs s' := by
  constructor
  · intro h
    cases h with
    | cons hnone hanswer haccept hrest => exact ⟨hnone, _, _, _, hanswer, haccept, hrest⟩
  · rintro ⟨hnone, answer, root, asked, hanswer, haccept, hrest⟩
    exact .cons hnone hanswer haccept hrest

/-- The role is asked for, and there is no answer, or none that is accepted.  Nothing is kept. -/
inductive Refused (fs : FileSystem) (t : Targets) (s : Session) (role : Role) :
    Failure → Session → Prop
  | unanswered {e : Failure} {asked : List Role} :
      t.answer s.asked role = (.error e, asked) → Refused fs t s role e { s with asked }
  | unaccepted {e : Failure} {asked : List Role} {answer : Path} :
      t.answer s.asked role = (.ok answer, asked) → acceptTarget fs answer role = .error e →
      Refused fs t s role e { s with asked }

/-! ## What a plan asks -/

theorem targetRoot_of_some (h : s.roots role = some p) : targetRoot fs t role s = (.ok p, s) := by
  simp only [targetRoot, h]

theorem targetRoot_eq_ok_iff (h : s.roots role = none) :
    targetRoot fs t role s = (.ok root, s') ↔ ∃ answer asked,
      t.answer s.asked role = (.ok answer, asked) ∧ acceptTarget fs answer role = .ok root ∧
        s' = ⟨s.roots.set role root, asked⟩ := by
  simp only [targetRoot, h]
  constructor
  · intro htarget
    split at htarget
    · exact absurd htarget (by simp)
    · rename_i answer asked hanswer
      split at htarget
      · exact absurd htarget (by simp)
      · rename_i q haccept
        obtain ⟨rfl, rfl⟩ : q = root ∧ _ = s' := by simpa using htarget
        exact ⟨answer, asked, hanswer, haccept, rfl⟩
  · rintro ⟨answer, asked, hanswer, haccept, rfl⟩
    simp only [hanswer, haccept]

theorem targetRoot_eq_error_iff (h : s.roots role = none) :
    targetRoot fs t role s = (.error e, s') ↔ Refused fs t s role e s' := by
  simp only [targetRoot, h]
  constructor
  · intro htarget
    split at htarget
    · rename_i e' asked hanswer
      obtain ⟨rfl, rfl⟩ : e' = e ∧ _ = s' := by simpa using htarget
      exact .unanswered hanswer
    · rename_i answer asked hanswer
      split at htarget
      · rename_i e' haccept
        obtain ⟨rfl, rfl⟩ : e' = e ∧ _ = s' := by simpa using htarget
        exact .unaccepted hanswer haccept
      · exact absurd htarget (by simp)
  · intro hrefused
    cases hrefused with
    | unanswered hanswer => simp only [hanswer]
    | unaccepted hanswer haccept => simp only [hanswer, haccept]

theorem plan_cons_eq_ok_iff : (∃ actions, plan fs t root author (c :: cs) s = (.ok actions, s')) ↔
    ∃ target s₁ actions, targetRoot fs t c.role s = (.ok target, s₁) ∧
      plan fs t root author cs s₁ = (.ok actions, s') := by
  rw [plan]
  constructor
  · rintro ⟨actions, h⟩
    split at h
    · exact absurd h (by simp)
    · rename_i target s₁ htarget
      split at h
      · exact absurd h (by simp)
      · rename_i actions' s₂ hrest
        obtain rfl := (Prod.mk.inj h).2
        exact ⟨target, s₁, actions', htarget, hrest⟩
  · rintro ⟨target, s₁, actions, htarget, hrest⟩
    refine ⟨actionFor root author target c :: actions, ?_⟩
    simp only [htarget, hrest]

theorem plan_cons_eq_error_iff : plan fs t root author (c :: cs) s = (.error e, s') ↔
    targetRoot fs t c.role s = (.error e, s') ∨
      ∃ target s₁, targetRoot fs t c.role s = (.ok target, s₁) ∧
        plan fs t root author cs s₁ = (.error e, s') := by
  rw [plan]
  constructor
  · intro h
    split at h
    · rename_i htarget
      exact .inl (htarget.trans (by simpa using h))
    · rename_i target s₁ htarget
      split at h
      · rename_i hrest
        exact .inr ⟨target, s₁, htarget, hrest.trans (by simpa using h)⟩
      · exact absurd h (by simp)
  · rintro (htarget | ⟨target, s₁, htarget, hrest⟩)
    · simp only [htarget]
    · simp only [htarget, hrest]

/-- The first of the questions for what is pending, and those that are left. -/
theorem exists_of_answered_pending (h : s.roots c.role = none)
    (ha : Answered fs t s (s.pending (c :: cs)) s') : ∃ answer root asked,
      t.answer s.asked c.role = (.ok answer, asked) ∧ acceptTarget fs answer c.role = .ok root ∧
        Answered fs t ⟨s.roots.set c.role root, asked⟩
          (pending ⟨s.roots.set c.role root, asked⟩ cs) s' := by
  have hpending : ∀ root asked, s.pending (c :: cs) =
      c.role :: pending ⟨s.roots.set c.role root, asked⟩ cs := pending_cons_of_none h
  rw [hpending ⟨""⟩ []] at ha
  obtain ⟨-, answer, root, asked, hanswer, haccept, hrest⟩ := answered_cons_iff.mp ha
  obtain ⟨-, htail⟩ := List.cons.inj ((hpending ⟨""⟩ []).symm.trans (hpending root asked))
  rw [htail] at hrest
  exact ⟨answer, root, asked, hanswer, haccept, hrest⟩

/-- A plan succeeds when all that is pending is answered. -/
theorem exists_plan_eq_ok_iff : (∃ actions, plan fs t root author cs s = (.ok actions, s')) ↔
    Answered fs t s (s.pending cs) s' := by
  induction cs generalizing s with
  | nil =>
    constructor
    · rintro ⟨actions, h⟩
      obtain rfl : s = s' := (Prod.mk.inj h).2
      exact .nil
    · intro h
      cases h
      exact ⟨[], rfl⟩
  | cons c rest ih =>
    rw [plan_cons_eq_ok_iff]
    cases hroot : s.roots c.role with
    | some p =>
      rw [pending_cons_of_some hroot, ← ih, targetRoot_of_some hroot]
      simp
    | none =>
      constructor
      · rintro ⟨target, s₁, actions, htarget, hrest⟩
        obtain ⟨answer, asked, hanswer, haccept, rfl⟩ := (targetRoot_eq_ok_iff hroot).mp htarget
        rw [pending_cons_of_none hroot target asked]
        exact .cons hroot hanswer haccept (ih.mp ⟨actions, hrest⟩)
      · intro h
        obtain ⟨answer, target, asked, hanswer, haccept, hrest⟩ :=
          exists_of_answered_pending hroot h
        obtain ⟨actions, hplan⟩ := ih.mpr hrest
        exact ⟨target, _, actions, (targetRoot_eq_ok_iff hroot).mpr ⟨answer, asked, hanswer,
          haccept, rfl⟩, hplan⟩

/-- **A plan that succeeds** has asked for all that was pending. -/
theorem plan_eq_ok_iff_answered : plan fs t root author cs s = (.ok actions, s') ↔
    Answered fs t s (s.pending cs) s' ∧
      actions = cs.map fun c => actionFor root author (s'.target c.role) c := by
  constructor
  · intro h
    exact ⟨exists_plan_eq_ok_iff.mp ⟨actions, h⟩, (exists_of_plan h).2.2⟩
  · rintro ⟨hanswered, rfl⟩
    obtain ⟨actions', h⟩ := exists_plan_eq_ok_iff.mpr hanswered
    rwa [(exists_of_plan h).2.2] at h

/-- **A plan that fails** has asked for what was pending up to the first that was refused. -/
theorem plan_eq_error_iff_refused : plan fs t root author cs s = (.error e, s') ↔
    ∃ before role after s₁, s.pending cs = before ++ role :: after ∧
      Answered fs t s before s₁ ∧ Refused fs t s₁ role e s' := by
  induction cs generalizing s with
  | nil => simp [plan, pending]
  | cons c rest ih =>
    rw [plan_cons_eq_error_iff]
    cases hroot : s.roots c.role with
    | some p =>
      rw [pending_cons_of_some hroot, ← ih, targetRoot_of_some hroot]
      simp
    | none =>
      constructor
      · rintro (htarget | ⟨target, s₁, htarget, hrest⟩)
        · exact ⟨[], c.role, _, s, pending_cons_of_none hroot ⟨""⟩ [], .nil,
            (targetRoot_eq_error_iff hroot).mp htarget⟩
        · obtain ⟨answer, asked, hanswer, haccept, rfl⟩ := (targetRoot_eq_ok_iff hroot).mp htarget
          obtain ⟨before, role, after, s₂, hpending, hbefore, hrefused⟩ := ih.mp hrest
          refine ⟨c.role :: before, role, after, s₂, ?_, .cons hroot hanswer haccept hbefore,
            hrefused⟩
          rw [pending_cons_of_none hroot target asked, hpending]
          rfl
      · rintro ⟨before, role, after, s₁, hpending, hbefore, hrefused⟩
        cases before with
        | nil =>
          cases hbefore
          rw [pending_cons_of_none hroot ⟨""⟩ []] at hpending
          obtain ⟨rfl, -⟩ := List.cons.inj hpending
          exact .inl ((targetRoot_eq_error_iff hroot).mpr hrefused)
        | cons first before =>
          obtain ⟨-, answer, target, asked, hanswer, haccept, hrest⟩ :=
            answered_cons_iff.mp hbefore
          rw [pending_cons_of_none hroot target asked] at hpending
          obtain ⟨rfl, htail⟩ := List.cons.inj hpending
          exact .inr ⟨target, _, (targetRoot_eq_ok_iff hroot).mpr ⟨answer, asked, hanswer, haccept,
            rfl⟩, ih.mpr ⟨before, role, after, s₁, htail, hrest, hrefused⟩⟩

/-- Nothing is asked or checked for a role that is not pending. -/
theorem plan_eq_of_pending
    (hanswer : ∀ role ∈ s.pending cs, ∀ asked, t'.answer asked role = t.answer asked role)
    (haccept : ∀ role ∈ s.pending cs, ∀ answer,
      acceptTarget fs' answer role = acceptTarget fs answer role) :
    plan fs' t' root author cs s = plan fs t root author cs s := by
  induction cs generalizing s with
  | nil => rfl
  | cons c rest ih =>
    cases hroot : s.roots c.role with
    | some p =>
      rw [pending_cons_of_some hroot] at hanswer haccept
      rw [plan, plan, targetRoot_of_some hroot, targetRoot_of_some hroot]
      simp only [ih hanswer haccept]
    | none =>
      have hmem : c.role ∈ s.pending (c :: rest) :=
        mem_pending.mpr ⟨hroot, c, List.mem_cons_self, rfl⟩
      have htarget : targetRoot fs' t' c.role s = targetRoot fs t c.role s := by
        simp only [targetRoot, hanswer _ hmem, haccept _ hmem]
      rw [plan, plan, htarget]
      cases hresult : targetRoot fs t c.role s with
      | mk result s₁ =>
        cases result with
        | error e => rfl
        | ok target =>
          obtain ⟨_, asked, -, -, rfl⟩ := (targetRoot_eq_ok_iff hroot).mp hresult
          rw [pending_cons_of_none hroot target asked] at hanswer haccept
          simp only [ih (fun role h => hanswer role (List.mem_cons_of_mem _ h))
            fun role h => haccept role (List.mem_cons_of_mem _ h)]

/-! ## What questions leave -/

namespace Answered

theorem asked_eq (h : Answered fs t s rs s') : s'.asked = s.asked ++ rs.filter t.asks := by
  induction h with
  | nil => simp
  | cons _ hanswer _ _ ih =>
    rw [ih, Targets.asked_of_answer hanswer, List.append_assoc, ← List.filter_append,
      List.singleton_append]

theorem extends_start (h : Answered fs t s rs s') : s'.Extends s := by
  induction h with
  | nil => exact .refl _
  | @cons s _ role _ _ _ _ hnone _ _ _ ih =>
    refine ih.trans fun r p hp => ?_
    have hne : r ≠ role := by
      rintro rfl
      rw [hnone] at hp
      exact absurd hp (by simp)
    simpa [Presets.set, hne] using hp

/-- What is kept then was kept before, or is an answer that was accepted. -/
theorem root_cases (h : Answered fs t s rs s') (hr : s'.roots r = some root) :
    s.roots r = some root ∨ r ∈ rs ∧ ∃ answer, acceptTarget fs answer r = .ok root := by
  induction h with
  | nil => exact .inl hr
  | @cons s _ role rs _ answer target _ _ haccept _ ih =>
    rcases ih hr with hkept | ⟨hmem, haccepted⟩
    · by_cases hrole : r = role
      · subst hrole
        obtain rfl : target = root := by simpa [Presets.set] using hkept
        exact .inr ⟨List.mem_cons_self, answer, haccept⟩
      · exact .inl (by simpa [Presets.set, hrole] using hkept)
    · exact .inr ⟨List.mem_cons_of_mem _ hmem, haccepted⟩

end Answered

theorem Refused.roots_eq (h : Refused fs t s role e s') : s'.roots = s.roots := by
  cases h <;> rfl

theorem Refused.asked_eq (h : Refused fs t s role e s') :
    s'.asked = s.asked ++ [role].filter t.asks := by
  cases h with
  | unanswered hanswer => exact Targets.asked_of_answer hanswer
  | unaccepted hanswer _ => exact Targets.asked_of_answer hanswer

/-- What a call has done to a session, having asked for the roles. -/
structure Consulted (fs : FileSystem) (t : Targets) (rs : List Role) (s s' : Session) : Prop where
  asked : s'.asked = s.asked ++ rs.filter t.asks
  kept : s'.Extends s
  accepted : ∀ r root, s'.roots r = some root →
    s.roots r = some root ∨ r ∈ rs ∧ ∃ answer, acceptTarget fs answer r = .ok root

theorem Consulted.refl (fs : FileSystem) (t : Targets) (s : Session) : Consulted fs t [] s s :=
  ⟨by simp, .refl s, fun _ _ hr => .inl hr⟩

/-- **What a plan asks for**, however it ends, are the first of the pending roles. -/
theorem exists_consulted_of_plan {result : Except Failure (List Action)}
    (h : plan fs t root author cs s = (result, s')) :
    ∃ rs, rs <+: s.pending cs ∧ Consulted fs t rs s s' := by
  cases result with
  | ok actions =>
    obtain ⟨hanswered, -⟩ := plan_eq_ok_iff_answered.mp h
    exact ⟨_, List.prefix_refl _, hanswered.asked_eq, hanswered.extends_start,
      fun _ _ => hanswered.root_cases⟩
  | error e =>
    obtain ⟨before, role, after, s₁, hpending, hbefore, hrefused⟩ :=
      plan_eq_error_iff_refused.mp h
    refine ⟨before ++ [role], ⟨after, by simp [hpending]⟩, ?_, ?_, fun r p hr => ?_⟩
    · rw [hrefused.asked_eq, hbefore.asked_eq, List.append_assoc, ← List.filter_append]
    · rw [Extends, hrefused.roots_eq]
      exact hbefore.extends_start
    · rw [hrefused.roots_eq] at hr
      rcases hbefore.root_cases hr with hkept | ⟨hmem, haccept⟩
      · exact .inl hkept
      · exact .inr ⟨List.mem_append_left _ hmem, haccept⟩

theorem run_of_load_eq_error {op : Operation} (t : Targets) (s : Session)
    (hload : load fs p = .error e) : op.run t p s fs = (.error e, s, fs) := by
  rw [op.run_eq]
  refine carryOut_eq_error.mpr (.inl ⟨?_, rfl⟩)
  rw [loadAndPlan, hload]

/-- A run does to the session what its plan does. -/
theorem exists_plan_of_run {op : Operation} {m : Manifest}
    {result : Except Failure (List Action)} (hload : load fs p = .ok (root, m))
    (h : op.run t p s fs = (result, s', fs')) :
    ∃ planned, plan fs t root m.author m.installs s = (planned, s') ∧
      ∀ actions, result = .ok actions → planned = .ok actions := by
  rw [op.run_eq] at h
  cases result with
  | ok actions =>
    obtain ⟨hplan, -⟩ := carryOut_eq_ok.mp h
    rw [loadAndPlan_of_load hload] at hplan
    exact ⟨.ok actions, hplan, fun _ heq => heq⟩
  | error e =>
    rcases carryOut_eq_error.mp h with ⟨hplan, -⟩ | ⟨actions, hplan, -⟩
    · rw [loadAndPlan_of_load hload] at hplan
      exact ⟨.error e, hplan, fun _ heq => heq⟩
    · rw [loadAndPlan_of_load hload] at hplan
      exact ⟨.ok actions, hplan, fun _ heq => absurd heq (by simp)⟩

theorem exists_consulted_of_run {op : Operation} {result : Except Failure (List Action)}
    (h : op.run t p s fs = (result, s', fs')) :
    ∃ rs, (∀ r ∈ rs, s.roots r = none) ∧ Consulted fs t rs s s' := by
  cases hload : load fs p with
  | error e =>
    rw [run_of_load_eq_error t s hload] at h
    obtain rfl := (Prod.mk.inj (Prod.mk.inj h).2).1
    exact ⟨[], by simp, .refl fs t s⟩
  | ok x =>
    obtain ⟨planned, hplan, -⟩ := exists_plan_of_run hload h
    obtain ⟨rs, hbegin, hconsulted⟩ := exists_consulted_of_plan hplan
    exact ⟨rs, fun r hr => (mem_pending.mp (hbegin.subset hr)).1, hconsulted⟩

/-! ## All calls of a session -/

/-- The sessions that may follow, after any calls on any file systems. -/
inductive Later : Session → Session → Prop
  | refl {s : Session} : Later s s
  | plan {s s' s'' : Session} {fs : FileSystem} {t : Targets} {root : Path} {author : String}
      {cs : List Component} {result : Except Failure (List Action)} :
      Later s s' → Session.plan fs t root author cs s' = (result, s'') → Later s s''
  | run {s s' s'' : Session} {fs fs' : FileSystem} {op : Operation} {t : Targets} {p : Path}
      {result : Except Failure (List Action)} :
      Later s s' → op.run t p s' fs = (result, s'', fs') → Later s s''

/-- No question is asked for what is kept, and what is kept stays. -/
def Settled (s s' : Session) : Prop :=
  s'.Extends s ∧ ∃ new, s'.asked = s.asked ++ new ∧ ∀ r ∈ new, s.roots r = none

theorem Settled.of_consulted (h : s.Settled s') (hc : Consulted fs t rs s' s'')
    (hrs : ∀ r ∈ rs, s'.roots r = none) : s.Settled s'' := by
  obtain ⟨hkept, new, hasked, hnew⟩ := h
  refine ⟨hc.kept.trans hkept, new ++ rs.filter t.asks, ?_, fun r hr => ?_⟩
  · rw [hc.asked, hasked, List.append_assoc]
  · rcases List.mem_append.mp hr with hr | hr
    · exact hnew r hr
    · have hnone := hrs r (List.mem_of_mem_filter hr)
      cases hroot : s.roots r with
      | none => rfl
      | some p =>
        rw [hkept r p hroot] at hnone
        exact absurd hnone (by simp)

/-- **What is kept stays and is not asked for again**, whatever the calls are. -/
theorem Later.settled (h : Later s s') : s.Settled s' := by
  induction h with
  | refl => exact ⟨.refl _, [], by simp, by simp⟩
  | plan _ hplan ih =>
    obtain ⟨rs, hbegin, hconsulted⟩ := exists_consulted_of_plan hplan
    exact ih.of_consulted hconsulted fun r hr => (mem_pending.mp (hbegin.subset hr)).1
  | run _ hrun ih =>
    obtain ⟨rs, hnone, hconsulted⟩ := exists_consulted_of_run hrun
    exact ih.of_consulted hconsulted hnone

/-- The roots that are kept are absolute. -/
theorem History.isAbsolute (h : History s seen) (hr : s.roots r = some root) :
    root.isAbsolute = true := by
  have hstep : ∀ {fs : FileSystem} {t : Targets} {rs : List Role} {s s' : Session},
      (∀ r root, s.roots r = some root → root.isAbsolute = true) → Consulted fs t rs s s' →
      ∀ r root, s'.roots r = some root → root.isAbsolute = true := by
    intro fs t rs s s' hs hc r root hr
    rcases hc.accepted r root hr with hkept | ⟨-, answer, haccept⟩
    · exact hs r root hkept
    · exact isAbsolute_of_acceptTarget haccept
  suffices hall : ∀ r root, s.roots r = some root → root.isAbsolute = true from hall r root hr
  clear hr
  induction h with
  | start => exact fun r root hr => absurd hr (by simp [Session.start, Presets.none])
  | plan _ hplan ih =>
    obtain ⟨rs, -, hconsulted⟩ := exists_consulted_of_plan hplan
    exact hstep ih hconsulted
  | run _ hrun ih =>
    obtain ⟨rs, -, hconsulted⟩ := exists_consulted_of_run hrun
    exact hstep ih hconsulted

/-- **Roots are asked for once, in order, and stay.**  In every session there can be: nothing is
asked before the manifest is there.  A plan asks for the roles without a root, each at its first
component, up to the first that is refused; of these the prompt is asked for those without a preset,
and what is kept are the answers that were accepted.  Any other role matters neither as to what is
answered nor as to what is checked.  A root that is kept is absolute and passed its check in one of
the calls; it stays, and is not asked for again, whatever is called later on. -/
theorem roots_are_asked_once (h : History s seen) :
    (∀ (op : Operation) (t : Targets) (p : Path) (fs : FileSystem) (e : Failure),
      load fs p = .error e → op.run t p s fs = (.error e, s, fs)) ∧
    (∀ (op : Operation) (t : Targets) (p : Path) (fs : FileSystem) (root : Path) (m : Manifest)
      (result : Except Failure (List Action)) (s' : Session) (fs' : FileSystem),
      load fs p = .ok (root, m) → op.run t p s fs = (result, s', fs') →
      ∃ planned, plan fs t root m.author m.installs s = (planned, s') ∧
        ∀ actions, result = .ok actions → planned = .ok actions) ∧
    (∀ (fs : FileSystem) (t : Targets) (root : Path) (author : String) (cs : List Component),
      (∀ actions s', plan fs t root author cs s = (.ok actions, s') ↔
        Answered fs t s (s.pending cs) s' ∧
          actions = cs.map fun c => actionFor root author (s'.target c.role) c) ∧
      (∀ e s', plan fs t root author cs s = (.error e, s') ↔
        ∃ before role after s₁, s.pending cs = before ++ role :: after ∧
          Answered fs t s before s₁ ∧ Refused fs t s₁ role e s') ∧
      (∀ result s', plan fs t root author cs s = (result, s') →
        ∃ rs, rs <+: s.pending cs ∧ Consulted fs t rs s s') ∧
      ∀ fs' t', (∀ role ∈ s.pending cs, ∀ asked, t'.answer asked role = t.answer asked role) →
        (∀ role ∈ s.pending cs, ∀ answer,
          acceptTarget fs' answer role = acceptTarget fs answer role) →
        plan fs' t' root author cs s = plan fs t root author cs s) ∧
    ∀ r kept, s.roots r = some kept → kept.isAbsolute = true ∧
      (∃ fs ∈ seen, checkTarget fs kept r = .ok ()) ∧
      ∀ s', Later s s' → s'.roots r = some kept ∧
        (∃ new, s'.asked = s.asked ++ new ∧ r ∉ new) ∧
        ∀ (fs : FileSystem) (t : Targets) (root : Path) (author : String) (cs : List Component),
          r ∉ s'.pending cs ∧
            ∀ actions s'', plan fs t root author cs s' = (.ok actions, s'') →
              ∀ a ∈ actions, a.role = r → ∃ c ∈ cs, a = actionFor root author kept c := by
  refine ⟨fun op t p fs e => run_of_load_eq_error t s,
    fun op t p fs root m result s' fs' => exists_plan_of_run, fun fs t root author cs => ?_,
    fun r kept hkept => ⟨h.isAbsolute hkept, h.checked r kept hkept, fun s' hlater => ?_⟩⟩
  · exact ⟨fun _ _ => plan_eq_ok_iff_answered, fun _ _ => plan_eq_error_iff_refused,
      fun _ _ => exists_consulted_of_plan, fun _ _ => plan_eq_of_pending⟩
  · obtain ⟨hextends, new, hasked, hnew⟩ := hlater.settled
    have hroot := hextends r kept hkept
    refine ⟨hroot, ⟨new, hasked, fun hr => ?_⟩, fun fs t root author cs => ⟨fun hr => ?_,
      fun actions s'' hplan a ha hrole => ?_⟩⟩
    · rw [hnew r hr] at hkept
      exact absurd hkept (by simp)
    · rw [(mem_pending.mp hr).1] at hroot
      exact absurd hroot (by simp)
    · obtain ⟨hextends', -, rfl⟩ := exists_of_plan hplan
      obtain ⟨c, hc, rfl⟩ := List.mem_map.mp ha
      obtain rfl : c.role = r := hrole
      exact ⟨c, hc, by rw [target_eq (hextends' _ _ hroot)]⟩

/-- The root of the backend is known; for the others the prompt answers with a path that leads
nowhere. -/
def lostTargets : Targets := ⟨Presets.none.set .backend ⟨"/r"⟩, some fun _ _ => .ok ⟨"/nowhere"⟩⟩

/-- The session after a call that found the backend and not the store. -/
def lostSession : Session := (Operation.uninstall.run lostTargets ⟨"/p"⟩ .start mixedWorld).2.1

/-- The backend is no longer one. -/
def unmarkedWorld : FileSystem :=
  acmeWorld [(["p", "manifest.json"], mixedManifest), (["p", "x"], .directory 0o755),
    (["p", "z"], .directory 0o755)]

theorem roots_are_asked_once_lostSession :
    lostSession.asked = [.store] ∧ lostSession.roots .store = none ∧
      (Path.mk "/r").isAbsolute = true ∧
      let s' := (Operation.uninstall.run ⟨.none, none⟩ ⟨"/p"⟩ lostSession unmarkedWorld).2.1
      s'.roots .backend = some ⟨"/r"⟩ ∧ ∃ new, s'.asked = [.store] ++ new ∧ .backend ∉ new := by
  have hasked : lostSession.asked = [.store] := by decide +kernel
  have hfirst : Operation.uninstall.run lostTargets ⟨"/p"⟩ .start mixedWorld =
      (_, lostSession, _) := Prod.ext rfl (Prod.ext rfl rfl)
  have hhistory : History lostSession [mixedWorld] := .run .start hfirst
  obtain ⟨-, -, -, hkept⟩ := roots_are_asked_once hhistory
  obtain ⟨habsolute, -, hlater⟩ := hkept .backend ⟨"/r"⟩ (by decide +kernel)
  have hsecond : Operation.uninstall.run ⟨.none, none⟩ ⟨"/p"⟩ lostSession unmarkedWorld =
      (_, _, _) := Prod.ext rfl (Prod.ext rfl rfl)
  obtain ⟨hroot, hnew, -⟩ := hlater _ (.run .refl hsecond)
  rw [hasked] at hnew
  exact ⟨hasked, by decide +kernel, habsolute, hroot, hnew⟩

end Session

end PluginManager
