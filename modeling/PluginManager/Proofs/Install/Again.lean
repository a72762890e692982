import PluginManager.Proofs.Install.Site

/-!
# One component, once more

A component that can be put at its place in one file system can be put there in another, if the
component is the same in both and the way down is no worse.

* `Site.NoWorse`: where the way was missing or a directory, so it is in the other.
* `copy_again`, `link_again`: **a success in one is a success in the other**.
-/

namespace PluginManager.Site

open FileSystem

variable {st : Site} {Q : Location → Prop} {fs fs' fs₁ fs₂ : FileSystem} {levels : Nat}

/-- On the way down to the destination, what can be passed in `fs` can be passed in `fs₁`. -/
def NoWorse (st : Site) (fs fs₁ : FileSystem) : Prop :=
  ∀ pre, pre <+: st.names → pre ≠ st.names →
    fs.lookup (st.place ++ pre) = none ∨ fs.isDirectoryAt (st.place ++ pre) = true →
    fs₁.lookup (st.place ++ pre) = none ∨ fs₁.isDirectoryAt (st.place ++ pre) = true

/-- The way down, as clearing the destination leaves it. -/
theorem passable_of_placed {init : List String} {name : String} (hnames : st.names = init ++ [name])
    (hclear : Placed st.destination .empty fs fs') :
    Passable fs' st.place init ↔ Passable fs st.place init := by
  have hsame : ∀ pre, pre <+: init →
      fs'.lookup (st.place ++ pre) = fs.lookup (st.place ++ pre) := by
    intro pre hpre
    have hne : pre ≠ st.names := by
      rw [hnames]
      exact ne_of_prefix_of_concat hpre
    exact hclear.changes.lookup _ (not_within (hpre.trans (by simp [hnames])) hne)
  constructor
  · intro h pre hpre
    rw [FileSystem.isDirectoryAt, ← hsame pre hpre]
    exact h pre hpre
  · intro h pre hpre
    rw [FileSystem.isDirectoryAt, hsame pre hpre]
    exact h pre hpre

theorem NoWorse.passable (h : st.NoWorse fs fs₁) {init : List String} {name : String}
    (hnames : st.names = init ++ [name]) (hpass : Passable fs st.place init) :
    Passable fs₁ st.place init := by
  intro pre hpre
  refine h pre (hpre.trans (by simp [hnames])) ?_ (hpass pre hpre)
  rw [hnames]
  exact ne_of_prefix_of_concat hpre

/-- Clearing succeeds on a way that can be passed. -/
theorem Ready.clear_again (h : st.Ready Q fs) {init : List String} {name : String}
    (hnames : st.names = init ++ [name]) (hpass : Passable fs st.place init)
    (hfits : Fits st.target st.names) : ∃ fs', removeAll st.path fs = .ok () fs' := by
  refine removeAll_ok h.target h.place h.isName h.names_ne_nil h.noLinks ?_ hfits h.off
  rintro ⟨pre, hpre, hne, mode, content, hfile⟩
  have hinit : pre <+: init := by
    rw [hnames] at hpre hne
    exact prefix_concat_cases hpre hne
  rcases hpass pre hinit with hnone | hd
  · rw [hnone] at hfile
    exact absurd hfile (by simp)
  · exact absurd (isDirectory_of_lookup hd hfile) Bool.false_ne_true

section

variable (h : st.Ready Q fs) (h₁ : st.Ready Q fs₁) (hworse : st.NoWorse fs fs₁)

include h h₁ hworse

/-- **What was copied can be copied again.** -/
theorem copy_again (hsame : SameTree st.origin fs fs₁) (hremove : removeAll st.path fs = .ok () fs₂)
    (hcopy : copyLevels levels st.source st.path fs₂ = .ok () fs') :
    ∃ fs₃ fs₄, removeAll st.path fs₁ = .ok () fs₃ ∧
      copyLevels levels st.source st.path fs₃ = .ok () fs₄ := by
  obtain ⟨h₂, hclear⟩ := h.of_removeAll hremove
  obtain ⟨init, name, hnames, -, -⟩ := h.exists_names
  cases levels with
  | zero =>
    exact absurd hcopy copyLevels_zero_ne_ok
  | succ levels =>
    rw [copyLevels_succ] at hcopy
    obtain ⟨_, fs₅, hcreate, hcontents⟩ := Task.bind_eq_ok.mp hcopy
    obtain ⟨hpass, hfits, ho⟩ := h₂.opened_path hclear (Task.forPath_eq_ok.mp hcreate)
    have hinit : Passable fs₂ st.place init := by
      rw [hnames] at hpass
      exact hpass.init
    have hinit₁ := hworse.passable hnames ((passable_of_placed hnames hclear).mp hinit)
    obtain ⟨fs₃, hremove₁⟩ := h₁.clear_again hnames hinit₁ hfits
    obtain ⟨h₃, hclear₁⟩ := h₁.of_removeAll hremove₁
    have hpass₁ : Passable fs₃ st.place st.names := by
      rw [hnames]
      refine ((passable_of_placed hnames hclear₁).mpr hinit₁).concat (.inl ?_)
      have hfree := hclear₁.lookup []
      rwa [List.append_nil, destination, hnames] at hfree
    obtain ⟨fs₆, hcreate₁, ho₁⟩ :=
      createDirectories_ok h₃.target h₃.place h₃.isName h₃.names_ne_nil hpass₁ hfits
    obtain ⟨hcopying, hempty, hkept⟩ := h₂.copying hclear ho hfits.short
    obtain ⟨hcopying₁, hempty₁, hkept₁⟩ := h₃.copying hclear₁ ho₁ hfits.short
    have hcleared := hclear.sameTree h.apart
    have hcleared₁ := hclear₁.sameTree h.apart
    obtain ⟨fs₄, hcontents₁⟩ := copyContents_ok hcopying hcopying₁
      (((hcleared.trans hkept).symm.trans hsame).trans (hcleared₁.trans hkept₁))
      (repeats_copyLevels levels) hempty hempty₁ hcontents
    refine ⟨fs₃, fs₄, hremove₁, ?_⟩
    rw [copyLevels_succ]
    exact Task.bind_eq_ok.mpr ⟨(), fs₆, Task.forPath_eq_ok.mpr hcreate₁, hcontents₁⟩

/-- **What was linked can be linked again.** -/
theorem link_again (hremove : removeAll st.path fs = .ok () fs₂)
    (hlink : linkTo st.source st.path fs₂ = .ok () fs') :
    ∃ fs₃ fs₄, removeAll st.path fs₁ = .ok () fs₃ ∧
      linkTo st.source st.path fs₃ = .ok () fs₄ := by
  obtain ⟨-, hfits, ht⟩ := h.laid_of_link hremove hlink
  obtain ⟨h₂, hclear⟩ := h.of_removeAll hremove
  obtain ⟨init, name, hnames, hinit, -⟩ := h.exists_names
  have hpre : init <+: st.names := by simp [hnames]
  have hinames : ∀ n ∈ init, IsName n := fun n hn => h.isName n (hpre.subset hn)
  obtain ⟨fs₅, -, hcreate, -, -⟩ := (linkTo_eq_ok (h.parent?_path hnames hinit)).mp hlink
  obtain ⟨hpass, hfits', -⟩ := h₂.opened_parent hnames hinit hcreate
  have hpass₁ := hworse.passable hnames ((passable_of_placed hnames hclear).mp hpass)
  obtain ⟨fs₃, hremove₁⟩ := h₁.clear_again hnames hpass₁ hfits
  obtain ⟨h₃, hclear₁⟩ := h₁.of_removeAll hremove₁
  obtain ⟨fs₆, hcreate₁, ho₁⟩ := createDirectories_ok h₃.target h₃.place hinames hinit
    ((passable_of_placed hnames hclear₁).mpr hpass₁) hfits'
  have h₆ := h₃.of_opened hpre ho₁
  obtain ⟨fs₇, hremove₂⟩ := h₆.clear_again hnames (fun pre hp => .inr (ho₁.opens pre hp)) hfits
  obtain ⟨h₇, -, hway, hfree⟩ := h₆.cleared_again hnames ho₁.opens hremove₂
  have hmade := makeLink_descend h₇.target h₇.place h₇.isName h₇.names_ne_nil hway hfits ht hfree
  exact ⟨fs₃, _, hremove₁, (linkTo_eq_ok (h.parent?_path hnames hinit)).mpr
    ⟨fs₆, fs₇, hcreate₁, hremove₂, hmade⟩⟩

end

end PluginManager.Site
