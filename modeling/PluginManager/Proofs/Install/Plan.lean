import PluginManager.Install
import PluginManager.Proofs.FileSystem.Route

/-!
# Plans

A plan takes one target root for each role and joins the output directories to it.

* `exists_of_plan`: a plan that succeeds is a map over the components, with the roots that the
  session keeps afterwards.
* `plan_of_kept`: roots that are kept are taken as they are.
* `plan_congr`: **a plan depends on the file system** only by the roots that are accepted.
* `carryOut_eq_ok`: a plan, and then its actions.
-/

namespace PluginManager

variable {fs fs' : FileSystem} {role : Role} {root : Path}

/-! ## Targets -/

theorem hasMarker_congr (hmarker : fs.FindsAgain fs' (root.child role.marker))
    (h : hasMarker fs root role = true) : hasMarker fs' root role = true := by
  rw [hasMarker, FileSystem.exists?] at h ⊢
  cases hfind : fs.find true (root.child role.marker) with
  | error e =>
    rw [hfind] at h
    exact absurd h (by simp)
  | ok x => rw [hmarker x hfind]

theorem checkTarget_congr {u : Unit} (hroot : fs.FindsAgain fs' root)
    (hmarker : fs.FindsAgain fs' (root.child role.marker))
    (h : checkTarget fs root role = .ok u) : checkTarget fs' root role = .ok u := by
  rw [checkTarget] at h ⊢
  split at h
  · exact absurd h (by simp)
  · rename_i l entry hfind
    split at h
    · exact absurd h (by simp)
    · rename_i hdirectory
      split at h
      · exact absurd h (by simp)
      · rename_i hmark
        have hmark' := hasMarker_congr hmarker (by simpa using hmark)
        rw [hroot _ hfind]
        simp only [if_neg hdirectory, hmark', Bool.not_true, Bool.false_eq_true, if_false]

/-- What is accepted is the answer made absolute, and it passes its check. -/
theorem acceptTarget_eq_ok_iff {answer : Path} : acceptTarget fs answer role = .ok root ↔
    fs.absolute answer = .ok root ∧ checkTarget fs root role = .ok () := by
  rw [acceptTarget]
  cases fs.absolute answer with
  | error e => simp
  | ok q =>
    dsimp only
    constructor
    · intro h
      cases hcheck : checkTarget fs q role with
      | error e =>
        rw [hcheck] at h
        cases h
      | ok u =>
        rw [hcheck] at h
        obtain rfl : q = root := Except.ok.inj h
        exact ⟨rfl, hcheck⟩
    · rintro ⟨habsolute, hcheck⟩
      obtain rfl := Except.ok.inj habsolute
      rw [hcheck]
      rfl

/-- A target is accepted again where its root and its marker are found again. -/
theorem acceptTarget_congr {answer : Path} (hwd : fs'.workingDirectory = fs.workingDirectory)
    (hroot : fs.FindsAgain fs' root) (hmarker : fs.FindsAgain fs' (root.child role.marker))
    (h : acceptTarget fs answer role = .ok root) : acceptTarget fs' answer role = .ok root := by
  obtain ⟨habsolute, hcheck⟩ := acceptTarget_eq_ok_iff.mp h
  refine acceptTarget_eq_ok_iff.mpr ⟨?_, checkTarget_congr hroot hmarker hcheck⟩
  rw [FileSystem.absolute] at habsolute ⊢
  rwa [hwd]

namespace Session

variable {t : Targets} {s s' : Session} {p : Path} {author : String} {cs : List Component}
  {actions : List Action}

/-! ## Roots -/

/-- Roots that are kept stay as they are. -/
def Extends (s' s : Session) : Prop := ∀ role p, s.roots role = some p → s'.roots role = some p

theorem Extends.refl (s : Session) : s.Extends s := fun _ _ h => h

theorem Extends.trans {s s' s'' : Session} (h : s''.Extends s') (g : s'.Extends s) :
    s''.Extends s := fun role p hp => h role p (g role p hp)

/-- The root that is kept for a role. -/
def target (s : Session) (role : Role) : Path := (s.roots role).getD ⟨""⟩

theorem target_eq (h : s.roots role = some p) : s.target role = p := by rw [target, h]; rfl

theorem extends_of_targetRoot (h : targetRoot fs t role s = (.ok p, s')) :
    s'.roots role = some p ∧ s'.Extends s := by
  rw [targetRoot] at h
  split at h
  · rename_i root hroot
    obtain ⟨rfl, rfl⟩ : root = p ∧ s = s' := by simpa using h
    exact ⟨hroot, .refl s⟩
  · rename_i hnone
    split at h
    · exact absurd h (by simp)
    · split at h
      · exact absurd h (by simp)
      · rename_i root _
        obtain ⟨rfl, rfl⟩ : root = p ∧ _ = s' := by simpa using h
        refine ⟨by simp [Presets.set], ?_⟩
        intro r q hq
        have hne : r ≠ role := by
          rintro rfl
          rw [hnone] at hq
          exact absurd hq (by simp)
        simpa [Presets.set, hne] using hq

/-! ## Plans -/

/-- **A plan that succeeds** has one action for each component, and the session keeps the root of
every role in it. -/
theorem exists_of_plan (h : plan fs t root author cs s = (.ok actions, s')) :
    s'.Extends s ∧ (∀ c ∈ cs, (s'.roots c.role).isSome) ∧
      actions = cs.map fun c => actionFor root author (s'.target c.role) c := by
  induction cs generalizing s actions with
  | nil =>
    obtain ⟨rfl, rfl⟩ : [] = actions ∧ s = s' := by simpa [plan] using h
    exact ⟨.refl s, fun c hc => absurd hc (by simp), rfl⟩
  | cons c rest ih =>
    rw [plan] at h
    split at h
    · exact absurd h (by simp)
    · rename_i target s₁ htarget
      split at h
      · exact absurd h (by simp)
      · rename_i actions' s₂ hplan
        obtain ⟨rfl, rfl⟩ : _ = actions ∧ s₂ = s' := by simpa using h
        obtain ⟨hkept, hext⟩ := extends_of_targetRoot htarget
        obtain ⟨hext', hroots, hactions⟩ := ih hplan
        have hfinal : s₂.roots c.role = some target := hext' _ _ hkept
        refine ⟨hext'.trans hext, ?_, ?_⟩
        · intro d hd
          rcases List.mem_cons.mp hd with rfl | hd
          · rw [hfinal]
            rfl
          · exact hroots d hd
        · rw [List.map_cons, target_eq hfinal, hactions]

/-- Roots that are kept already are not asked for. -/
theorem plan_of_kept {target : Role → Path}
    (h : ∀ c ∈ cs, s.roots c.role = some (target c.role)) :
    plan fs t root author cs s =
      (.ok (cs.map fun c => actionFor root author (target c.role) c), s) := by
  induction cs with
  | nil => rfl
  | cons c rest ih =>
    have hrest := ih fun d hd => h d (List.mem_cons_of_mem c hd)
    rw [plan, targetRoot, h c List.mem_cons_self]
    simp only [hrest]
    rfl

/-- Where the roots that were accepted are accepted again, the root for a role is the same. -/
theorem targetRoot_congr (h : targetRoot fs t role s = (.ok p, s'))
    (haccept : ∀ answer, acceptTarget fs answer role = .ok p →
      acceptTarget fs' answer role = .ok p) : targetRoot fs' t role s = (.ok p, s') := by
  rw [targetRoot] at h ⊢
  split at h
  · exact h
  · split at h
    · exact absurd h (by simp)
    · rename_i answer asked _
      cases hcheck : acceptTarget fs answer role with
      | error e =>
        rw [hcheck] at h
        exact absurd h (by simp)
      | ok root =>
        rw [hcheck] at h
        obtain rfl : root = p := by simpa using (Prod.mk.inj h).1
        simp only [haccept answer hcheck]
        exact h

/-- Where the roots that were accepted are accepted again, the plan is the same. -/
theorem plan_congr (h : plan fs t root author cs s = (.ok actions, s'))
    (haccept : ∀ c ∈ cs, ∀ answer p, s'.roots c.role = some p →
      acceptTarget fs answer c.role = .ok p → acceptTarget fs' answer c.role = .ok p) :
    plan fs' t root author cs s = (.ok actions, s') := by
  induction cs generalizing s actions with
  | nil => exact h
  | cons c rest ih =>
    rw [plan] at h ⊢
    split at h
    · exact absurd h (by simp)
    · rename_i target s₁ htarget
      split at h
      · exact absurd h (by simp)
      · rename_i actions' s₂ hplan
        obtain ⟨rfl, rfl⟩ : _ = actions ∧ s₂ = s' := by simpa using h
        obtain ⟨hext, -, -⟩ := exists_of_plan hplan
        have hkept := hext _ _ (extends_of_targetRoot htarget).1
        rw [targetRoot_congr htarget fun answer =>
          haccept c List.mem_cons_self answer target hkept]
        simp only [ih hplan fun d hd => haccept d (List.mem_cons_of_mem c hd)]

/-! ## Carrying out -/

theorem load_eq_ok {m : Manifest} :
    load fs p = .ok (root, m) ↔ fs.canonical p = .ok root ∧ Manifest.read fs root = .ok m := by
  rw [load]
  cases hcanonical : fs.canonical p with
  | error e => simp
  | ok canonical =>
    simp only [Except.ok.injEq]
    constructor
    · intro h
      cases hread : Manifest.read fs canonical with
      | error e =>
        rw [hread] at h
        exact absurd h (by simp [Except.map])
      | ok m' =>
        rw [hread] at h
        obtain ⟨rfl, rfl⟩ : canonical = root ∧ m' = m := by simpa [Except.map] using h
        exact ⟨rfl, hread⟩
    · rintro ⟨rfl, hread⟩
      rw [hread]
      rfl

theorem carryOut_eq_ok {act : Action → Task Unit} :
    carryOut act t p s fs = (.ok actions, s', fs') ↔
      loadAndPlan fs t p s = (.ok actions, s') ∧
        (actions.forM act : Task Unit) fs = .ok () fs' := by
  rw [carryOut]
  constructor
  · intro h
    split at h
    · exact absurd h (by simp)
    · rename_i actions' s₁ hplan
      split at h
      · rename_i u fs₁ hrun
        obtain ⟨rfl, rfl, rfl⟩ : actions' = actions ∧ s₁ = s' ∧ fs₁ = fs' := by simpa using h
        exact ⟨hplan, hrun⟩
      · exact absurd h (by simp)
  · rintro ⟨hplan, hrun⟩
    simp only [hplan, hrun]

end Session

end PluginManager
