import PluginManager.Proofs.FileSystem.Operations

/-!
# What a task leaves

A task that fails has done a part of its work, and that stays done.  What is said here of the file
system a task leaves is said of both endings.

* `Task.bind_eq_error` and the lemmas before it: a task fails when one of its parts does.
* `Task.exists_of_forM_eq_error`: **a run that fails** fails at one step, after all before it.
* `Task.Leaves`: whatever comes of a task, what it leaves has a property.
* `Task.FailsOnFiles`: the failures of a task are failures of the file system.
-/

namespace PluginManager.Task

variable {ε α β : Type} {fs fs' fs'' : FileSystem} {p : Path} {e : Failure}
  {R R' : FileSystem → Prop}

/-! ## Tasks that fail -/

theorem forPath_eq_error {t : FileTask α} :
    forPath p t fs = .error e fs' ↔ ∃ cause, t fs = .error cause fs' ∧ .file p cause = e := by
  rw [forPath]
  cases ht : t fs with
  | ok a fs'' => simp
  | error cause fs'' => simp [and_comm]

theorem look_eq_error {f : FileSystem → Except FileError α} :
    look p f fs = .error e fs' ↔ ∃ cause, f fs = .error cause ∧ .file p cause = e ∧ fs = fs' := by
  rw [look]
  cases hf : f fs with
  | ok a => simp
  | error cause => simp

/-- A change that fails changes nothing. -/
theorem change_eq_error {f : FileSystem → Except FileError FileSystem} :
    change p f fs = .error e fs' ↔
      ∃ cause, f fs = .error cause ∧ .file p cause = e ∧ fs = fs' := by
  rw [change, forPath_eq_error]
  simp only [FileTask.change]
  cases hf : f fs with
  | ok fs'' => simp
  | error cause => simp [and_comm]

theorem bind_eq_error {t : Task α} {f : α → Task β} :
    (t >>= f) fs = .error e fs'' ↔
      t fs = .error e fs'' ∨ ∃ a fs', t fs = .ok a fs' ∧ f a fs' = .error e fs'' := by
  show EStateM.bind t f fs = _ ↔ _
  rw [EStateM.bind]
  cases ht : t fs with
  | ok a fs' => simp
  | error e' fs' => simp

theorem forM_cons_eq_error {f : α → Task Unit} {a : α} {as : List α} :
    ((a :: as).forM f : Task Unit) fs = .error e fs'' ↔
      f a fs = .error e fs'' ∨
        ∃ fs', f a fs = .ok () fs' ∧ (as.forM f : Task Unit) fs' = .error e fs'' := by
  show (f a >>= fun _ => as.forM f) fs = _ ↔ _
  rw [bind_eq_error]
  constructor
  · rintro (hfirst | ⟨⟨⟩, fs', hfirst, hrest⟩)
    · exact .inl hfirst
    · exact .inr ⟨fs', hfirst, hrest⟩
  · rintro (hfirst | ⟨fs', hfirst, hrest⟩)
    · exact .inl hfirst
    · exact .inr ⟨(), fs', hfirst, hrest⟩

/-- **A run that fails** fails at one step: all before it have succeeded, and none after it was
taken. -/
theorem exists_of_forM_eq_error {f : α → Task Unit} {as : List α}
    (h : (as.forM f : Task Unit) fs = .error e fs'') :
    ∃ before a after fs', as = before ++ a :: after ∧
      (before.forM f : Task Unit) fs = .ok () fs' ∧ f a fs' = .error e fs'' := by
  induction as generalizing fs with
  | nil => cases h
  | cons a as ih =>
    rcases forM_cons_eq_error.mp h with hfirst | ⟨fs', hfirst, hrest⟩
    · exact ⟨[], a, as, fs, rfl, forM_nil_eq_ok.mpr rfl, hfirst⟩
    · obtain ⟨before, b, after, fs₁, rfl, hbefore, hb⟩ := ih hrest
      exact ⟨a :: before, b, after, fs₁, rfl, forM_cons_eq_ok.mpr ⟨fs', hfirst, hbefore⟩, hb⟩

/-! ## Runs that succeed -/

/-- Each step of a run that succeeds does so, from where the steps before it lead. -/
theorem exists_of_forM_eq_ok {f : α → Task Unit} {as : List α} {a : α}
    (h : (as.forM f : Task Unit) fs = .ok () fs') (hR : R fs)
    (hstep : ∀ a ∈ as, ∀ fs fs', R fs → f a fs = .ok () fs' → R fs') (ha : a ∈ as) :
    ∃ fs₁ fs₂, R fs₁ ∧ f a fs₁ = .ok () fs₂ := by
  induction as generalizing fs with
  | nil => exact absurd ha (by simp)
  | cons b rest ih =>
    obtain ⟨fs₁, hfirst, hrest⟩ := forM_cons_eq_ok.mp h
    rcases List.mem_cons.mp ha with rfl | ha
    · exact ⟨fs, fs₁, hR, hfirst⟩
    · exact ih hrest (hstep b List.mem_cons_self fs fs₁ hR hfirst)
        (fun c hc => hstep c (List.mem_cons_of_mem b hc)) ha

/-- Steps that change nothing make up a run that changes nothing. -/
theorem forM_eq_ok_of_forall {f : α → Task Unit} {as : List α}
    (h : ∀ a ∈ as, f a fs = .ok () fs) : (as.forM f : Task Unit) fs = .ok () fs := by
  induction as with
  | nil => rfl
  | cons a rest ih =>
    exact forM_cons_eq_ok.mpr ⟨fs, h a List.mem_cons_self,
      ih fun b hb => h b (List.mem_cons_of_mem a hb)⟩

/-! ## Both endings -/

/-- Whatever comes of the task, what it leaves has the property. -/
structure Leaves (t : EStateM ε FileSystem α) (fs : FileSystem) (R : FileSystem → Prop) : Prop where
  ok : ∀ a fs', t fs = .ok a fs' → R fs'
  error : ∀ e fs', t fs = .error e fs' → R fs'

theorem Leaves.mono {t : EStateM ε FileSystem α} (h : Leaves t fs R) (hR : ∀ fs', R fs' → R' fs') :
    Leaves t fs R' :=
  ⟨fun a fs' ht => hR fs' (h.ok a fs' ht), fun e fs' ht => hR fs' (h.error e fs' ht)⟩

theorem Leaves.and {t : EStateM ε FileSystem α} (h : Leaves t fs R) (h' : Leaves t fs R') :
    Leaves t fs fun fs' => R fs' ∧ R' fs' :=
  ⟨fun a fs' ht => ⟨h.ok a fs' ht, h'.ok a fs' ht⟩,
    fun e fs' ht => ⟨h.error e fs' ht, h'.error e fs' ht⟩⟩

theorem Leaves.congr {t t' : EStateM ε FileSystem α} (h : Leaves t' fs R) (heq : t fs = t' fs) :
    Leaves t fs R :=
  ⟨fun a fs' ht => h.ok a fs' (heq ▸ ht), fun e fs' ht => h.error e fs' (heq ▸ ht)⟩

theorem leaves_pure (a : α) (h : R fs) : Leaves (pure a : EStateM ε FileSystem α) fs R := by
  constructor
  · intro a fs' ht
    cases ht
    exact h
  · intro e fs' ht
    cases ht

theorem leaves_throw (e : ε) (h : R fs) : Leaves (throw e : EStateM ε FileSystem α) fs R := by
  constructor
  · intro a fs' ht
    cases ht
  · intro e fs' ht
    cases ht
    exact h

theorem leaves_forPath {t : FileTask α} (h : Leaves t fs R) : Leaves (forPath p t) fs R := by
  constructor
  · intro a fs' ht
    exact h.ok a fs' (forPath_eq_ok.mp ht)
  · intro e fs' ht
    obtain ⟨cause, hres, -⟩ := forPath_eq_error.mp ht
    exact h.error cause fs' hres

theorem leaves_change {f : FileSystem → Except FileError FileSystem} (h : R fs)
    (hf : ∀ fs', f fs = .ok fs' → R fs') : Leaves (change p f) fs R := by
  constructor
  · intro a fs' ht
    exact hf fs' (change_eq_ok.mp ht)
  · intro e fs' ht
    obtain ⟨-, -, -, rfl⟩ := change_eq_error.mp ht
    exact h

theorem leaves_bind {t : Task α} {f : α → Task β} (ht : ∀ e fs', t fs = .error e fs' → R fs')
    (hf : ∀ a fs', t fs = .ok a fs' → Leaves (f a) fs' R) : Leaves (t >>= f) fs R := by
  constructor
  · intro b fs'' h
    obtain ⟨a, fs', hfirst, hrest⟩ := bind_eq_ok.mp h
    exact (hf a fs' hfirst).ok b fs'' hrest
  · intro e fs'' h
    rcases bind_eq_error.mp h with hfirst | ⟨a, fs', hfirst, hrest⟩
    · exact ht e fs'' hfirst
    · exact (hf a fs' hfirst).error e fs'' hrest

/-- A look at the file system leaves it alone. -/
theorem leaves_look_bind {f : FileSystem → Except FileError α} {g : α → Task β} (h : R fs)
    (hg : ∀ a, f fs = .ok a → Leaves (g a) fs R) : Leaves (look p f >>= g) fs R := by
  refine leaves_bind (fun e fs' ht => ?_) fun a fs' ht => ?_
  · obtain ⟨-, -, -, rfl⟩ := look_eq_error.mp ht
    exact h
  · obtain ⟨hf, rfl⟩ := look_eq_ok.mp ht
    exact hg a hf

/-- What every step of a run keeps, the run keeps. -/
theorem leaves_forM {f : α → Task Unit} {as : List α} (h : R fs)
    (hstep : ∀ a ∈ as, ∀ fs, R fs → Leaves (f a) fs R) :
    Leaves (as.forM f : Task Unit) fs R := by
  induction as generalizing fs with
  | nil =>
    constructor
    · intro a fs' ht
      obtain rfl := forM_nil_eq_ok.mp ht
      exact h
    · intro e fs' ht
      cases ht
  | cons a as ih =>
    have hfirst := hstep a List.mem_cons_self fs h
    exact leaves_bind hfirst.error fun u fs' ht =>
      ih (hfirst.ok u fs' ht) fun b hb => hstep b (List.mem_cons_of_mem a hb)

/-! ## Failures of the file system -/

/-- The failures that the task raises are failures of the file system. -/
def FailsOnFiles (t : Task α) : Prop := ∀ fs e fs', t fs = .error e fs' → e.isFile = true

theorem failsOnFiles_forPath (t : FileTask α) : FailsOnFiles (forPath p t) := by
  intro fs e fs' h
  obtain ⟨cause, -, rfl⟩ := forPath_eq_error.mp h
  rfl

theorem failsOnFiles_change (f : FileSystem → Except FileError FileSystem) :
    FailsOnFiles (change p f) := failsOnFiles_forPath (FileTask.change f)

theorem failsOnFiles_look (f : FileSystem → Except FileError α) : FailsOnFiles (look p f) := by
  intro fs e fs' h
  obtain ⟨cause, -, rfl, -⟩ := look_eq_error.mp h
  rfl

theorem FailsOnFiles.bind {t : Task α} {f : α → Task β} (ht : FailsOnFiles t)
    (hf : ∀ a, FailsOnFiles (f a)) : FailsOnFiles (t >>= f) := by
  intro fs e fs'' h
  rcases bind_eq_error.mp h with hfirst | ⟨a, fs', -, hrest⟩
  · exact ht fs e fs'' hfirst
  · exact hf a fs' e fs'' hrest

theorem failsOnFiles_forM {f : α → Task Unit} (hf : ∀ a, FailsOnFiles (f a)) (as : List α) :
    FailsOnFiles (as.forM f : Task Unit) := by
  intro fs e fs'' h
  obtain ⟨-, a, -, fs', -, -, ha⟩ := exists_of_forM_eq_error h
  exact hf a fs' e fs'' ha

end PluginManager.Task
