import PluginManager.Settings.Load

/-!
# Roots in the settings

The settings may give a root for each role, and a tilde at the front of one asks for the home
directory.  They are expanded all at once, before it is known which of them are needed.

* `expandHome_eq_none_iff`: only a tilde cannot be expanded, and only without a home directory.
* `Settings.Expandable`: every root in the settings can be expanded.
* `Settings.root?`: the root for a role, which is none where the text is blank.
* `Settings.presets_eq_ok`, `Settings.presets_eq_noHome`: **what becomes of all of them**, by
  induction on the roles.
-/

namespace PluginManager

variable {e : Environment} {s : Settings} {text home : String} {role : Role} {roles : List Role}
  {p : Presets}

/-! ## Tildes -/

theorem expandHome_tilde (hhome : e.home = some home) (rest : String) :
    expandHome e ("~" ++ rest) = some ⟨home ++ rest⟩ := by
  rw [expandHome, String.toList_append]
  show (e.home.map fun home => (⟨home ++ String.ofList rest.toList⟩ : Path)) = _
  rw [hhome, Option.map_some, String.ofList_toList]

theorem expandHome_of_head (e : Environment) (h : text.toList.head? ≠ some '~') :
    expandHome e text = some ⟨text⟩ := by
  rw [expandHome]
  split
  · rename_i heq
    exact absurd (by rw [heq]; rfl) h
  · rfl

theorem expandHome_eq_none_iff :
    expandHome e text = none ↔ e.home = none ∧ text.toList.head? = some '~' := by
  by_cases hhead : text.toList.head? = some '~'
  · obtain ⟨rest, hrest⟩ := List.head?_eq_some_iff.mp hhead
    rw [expandHome, hrest]
    simp
  · simp [expandHome_of_head e hhead, hhead]

theorem exists_expandHome (hhome : e.home = some home) (text : String) :
    ∃ directory, expandHome e text = some directory := by
  refine Option.ne_none_iff_exists'.mp fun hnone => ?_
  rw [expandHome_eq_none_iff, hhome] at hnone
  exact absurd hnone.1 (by simp)

namespace Settings

/-! ## One role -/

/-- Every root in the settings can be expanded: there is a home directory, or no root begins with a
tilde. -/
def Expandable (s : Settings) (e : Environment) : Prop :=
  ∀ role text, s.target role = some text → expandHome e text ≠ none

theorem expandable_of_home (s : Settings) (hhome : e.home = some home) : s.Expandable e := by
  intro role text _
  obtain ⟨directory, hexpand⟩ := exists_expandHome hhome text
  simp [hexpand]

/-- The root that the settings give for a role, if its text is not blank and can be expanded. -/
def root? (s : Settings) (e : Environment) (role : Role) : Option Path :=
  (s.target role).bind fun text => if Text.isBlankText text then none else expandHome e text

theorem root?_of_target (htarget : s.target role = some text)
    (hblank : Text.isBlankText text = false) : s.root? e role = expandHome e text := by
  rw [root?, htarget, Option.bind_some, hblank]
  rfl

theorem preset_of_none (htarget : s.target role = none) : s.preset e role = .ok none := by
  rw [preset, htarget]

theorem preset_of_blank (htarget : s.target role = some text)
    (hblank : Text.isBlankText text = true) : s.preset e role = .ok none := by
  rw [preset, htarget]
  exact if_pos hblank

theorem preset_of_target (htarget : s.target role = some text)
    (hblank : Text.isBlankText text = false) :
    s.preset e role = (expand e text).map some := by
  rw [preset, htarget]
  exact if_neg (by simp [hblank])

theorem expand_of_some {directory : Path} (h : expandHome e text = some directory) :
    expand e text = .ok directory := by
  rw [expand, h]

theorem expand_of_none (h : expandHome e text = none) : expand e text = .error .noHome := by
  rw [expand, h]

theorem preset_eq_ok (h : s.Expandable e) (role : Role) :
    s.preset e role = .ok (s.root? e role) := by
  cases htarget : s.target role with
  | none => rw [preset_of_none htarget, root?, htarget, Option.bind_none]
  | some text =>
    cases hblank : Text.isBlankText text with
    | true =>
      rw [preset_of_blank htarget hblank, root?, htarget, Option.bind_some, hblank]
      rfl
    | false =>
      obtain ⟨directory, hexpand⟩ := Option.ne_none_iff_exists'.mp (h role text htarget)
      rw [preset_of_target htarget hblank, expand_of_some hexpand, root?_of_target htarget hblank,
        hexpand]
      rfl

/-- A text with a tilde in front is not blank. -/
theorem isBlankText_of_expandHome (h : expandHome e text = none) :
    Text.isBlankText text = false := by
  obtain ⟨rest, hrest⟩ := List.head?_eq_some_iff.mp (expandHome_eq_none_iff.mp h).2
  rw [Text.isBlankText, hrest, List.all_cons]
  exact Bool.and_eq_false_iff.mpr (.inl (by decide))

theorem preset_eq_noHome (htarget : s.target role = some text) (h : expandHome e text = none) :
    s.preset e role = .error .noHome := by
  rw [preset_of_target htarget (isBlankText_of_expandHome h), expand_of_none h]
  rfl

/-- There is no other failure. -/
theorem preset_cases (s : Settings) (e : Environment) (role : Role) :
    (∃ root, s.preset e role = .ok root) ∨ s.preset e role = .error .noHome := by
  cases htarget : s.target role with
  | none => exact .inl ⟨none, preset_of_none htarget⟩
  | some text =>
    cases hblank : Text.isBlankText text with
    | true => exact .inl ⟨none, preset_of_blank htarget hblank⟩
    | false =>
      cases hexpand : expandHome e text with
      | none => exact .inr (preset_eq_noHome htarget hexpand)
      | some directory =>
        left
        rw [preset_of_target htarget hblank, expand_of_some hexpand]
        exact ⟨some directory, rfl⟩

/-! ## All roles -/

theorem addPreset_eq_ok (h : s.Expandable e) (p : Presets) (role : Role) :
    s.addPreset e p role = .ok fun r => if r = role then (s.root? e r).or (p r) else p r := by
  rw [addPreset, preset_eq_ok h]
  cases hroot : s.root? e role with
  | none =>
    show Except.ok p = _
    congr 1
    funext r
    split
    · rename_i hr
      rw [hr, hroot, Option.none_or]
    · rfl
  | some root =>
    show Except.ok (p.set role root) = _
    congr 1
    funext r
    rw [Presets.set]
    split
    · rename_i hr
      rw [hr, hroot, Option.some_or]
    · rfl

theorem foldlM_addPreset_eq_ok (h : s.Expandable e) (p : Presets) :
    roles.foldlM (s.addPreset e) p =
      .ok fun r => if r ∈ roles then (s.root? e r).or (p r) else p r := by
  induction roles generalizing p with
  | nil => simp [pure, Except.pure]
  | cons role rest ih =>
    rw [List.foldlM_cons, addPreset_eq_ok h]
    refine (ih _).trans (congrArg Except.ok (funext fun r => ?_))
    by_cases hr : r = role
    · -- A role that comes again is given the same root again.
      simp [hr, ← Option.or_assoc]
    · simp [hr]

/-- **The roots for all roles**, where they can be expanded. -/
theorem presets_eq_ok (h : s.Expandable e) : s.presets e = .ok (s.root? e) := by
  rw [presets, foldlM_addPreset_eq_ok h]
  refine congrArg Except.ok (funext fun role => ?_)
  rw [if_pos role.mem_all, Presets.none, Option.or_none]

theorem foldlM_addPreset_eq_noHome (hmem : role ∈ roles)
    (h : s.preset e role = .error .noHome) (p : Presets) :
    roles.foldlM (s.addPreset e) p = .error .noHome := by
  induction roles generalizing p with
  | nil => exact absurd hmem List.not_mem_nil
  | cons first rest ih =>
    rw [List.foldlM_cons, addPreset]
    rcases s.preset_cases e first with ⟨root, hfirst⟩ | hfirst
    · have hrest : role ∈ rest := by
        rcases List.mem_cons.mp hmem with rfl | hrest
        · exact absurd (hfirst.symm.trans h) (by simp)
        · exact hrest
      rw [hfirst]
      cases root with
      | none => exact ih hrest p
      | some root => exact ih hrest (p.set first root)
    · rw [hfirst]
      rfl

/-- **One root that cannot be expanded** is a failure, for whichever role it is. -/
theorem presets_eq_noHome (h : ¬ s.Expandable e) : s.presets e = .error .noHome := by
  simp only [Expandable, Classical.not_forall, Classical.not_not] at h
  obtain ⟨role, text, htarget, hexpand⟩ := h
  exact foldlM_addPreset_eq_noHome role.mem_all (preset_eq_noHome htarget hexpand) Presets.none

end Settings

end PluginManager
