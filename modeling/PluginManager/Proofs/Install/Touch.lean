import PluginManager.Proofs.FileSystem.Halfway
import PluginManager.Proofs.Install.Site

/-!
# One component, whatever comes of it

An action may fail at every call it makes.  Nothing is asked of the component here: it may be
missing, or be the place it is to be copied to.  What an action has done by then lies at its
destination, but for directories on the way there.

* `Touched`: all that happened lies at some locations, below them, or is a directory made above one.
* `Site.Approach.leaves_installAction`, `leaves_uninstallAction`: **what an action touches**.
* `failsOnFiles_installAction`, `failsOnFiles_uninstallAction`: an action fails as the file system
  does.
-/

namespace PluginManager

open FileSystem

variable {st : Site} {Q : Location → Prop} {fs fs' fs'' fs₁ : FileSystem} {d l : Location}
  {ds : List Location} {tree : Tree} {names : List String} {source : Path} {levels : Nat}
  {a : Action}

/-! ## What is touched -/

/-- What is different lies at one of the locations or below, or is a directory that was made above
one. -/
structure Touched (ds : List Location) (fs fs' : FileSystem) : Prop where
  changes : ChangesOnly
    (fun l => (∃ d ∈ ds, d <+: l) ∨ (∃ d ∈ ds, l <+: d) ∧ fs.lookup l = none) fs fs'
  made : ∀ l, (∀ d ∈ ds, ¬ d <+: l) → fs.lookup l = none →
    fs'.lookup l = none ∨ fs'.lookup l = some (.directory newDirectoryMode)
  wellFormed : fs'.WellFormed

namespace Touched

theorem refl (h : fs.WellFormed) (ds : List Location) : Touched ds fs fs :=
  ⟨.refl _ fs, fun _ _ hnone => .inl hnone, h⟩

theorem lookup_eq (h : Touched ds fs fs') (hl : ∀ d ∈ ds, ¬ d <+: l)
    (habove : ¬ ((∃ d ∈ ds, l <+: d) ∧ fs.lookup l = none)) : fs'.lookup l = fs.lookup l := by
  refine h.changes.lookup l (not_or.mpr ⟨?_, habove⟩)
  rintro ⟨d, hd, hdl⟩
  exact hl d hd hdl

/-- What was there is still there, unless it lies at one of the locations or below. -/
theorem holds (h : Touched ds fs fs') : Holds (fun l => ∀ d ∈ ds, ¬ d <+: l) fs fs' := by
  intro l e hl he
  rw [h.lookup_eq hl, he]
  rintro ⟨-, hnone⟩
  rw [hnone] at he
  exact absurd he (by simp)

theorem mono {ds' : List Location} (h : Touched ds fs fs') (hds : ∀ d ∈ ds, d ∈ ds') :
    Touched ds' fs fs' := by
  refine ⟨h.changes.mono fun l hl => ?_, fun l hl => h.made l fun d hd => hl d (hds d hd),
    h.wellFormed⟩
  rcases hl with ⟨d, hd, hdl⟩ | ⟨⟨d, hd, hld⟩, hnone⟩
  · exact .inl ⟨d, hds d hd, hdl⟩
  · exact .inr ⟨⟨d, hds d hd, hld⟩, hnone⟩

theorem trans (h : Touched ds fs fs') (h' : Touched ds fs' fs'') : Touched ds fs fs'' := by
  have hkept : ∀ l, ¬ ((∃ d ∈ ds, d <+: l) ∨ (∃ d ∈ ds, l <+: d) ∧ fs.lookup l = none) →
      ¬ ((∃ d ∈ ds, d <+: l) ∨ (∃ d ∈ ds, l <+: d) ∧ fs'.lookup l = none) := by
    intro l hl
    rwa [h.changes.lookup l hl]
  refine ⟨⟨fun l hl => ?_, fun l hl => ?_, ?_, ?_⟩, fun l hl hnone => ?_, h'.wellFormed⟩
  · exact (h'.changes.lookup l (hkept l hl)).trans (h.changes.lookup l hl)
  · exact (h'.changes.names l fun n => hkept _ (hl n)).trans (h.changes.names l hl)
  · exact h'.changes.workingDirectory.trans h.changes.workingDirectory
  · exact h'.changes.distinct ∘ h.changes.distinct
  · rcases h.made l hl hnone with hnone' | hmade
    · exact h'.made l hl hnone'
    · exact .inr (h'.holds l _ hl hmade)

theorem of_changes (h : ChangesOnly (fun l => ∃ d ∈ ds, d <+: l) fs fs') (hwf : fs'.WellFormed) :
    Touched ds fs fs' := by
  refine ⟨h.mono fun l hl => .inl hl, fun l hl hnone => .inl ?_, hwf⟩
  rw [h.lookup l fun ⟨d, hd, hdl⟩ => hl d hd hdl, hnone]

theorem of_within (h : Within d fs fs') : Touched [d] fs fs' :=
  of_changes (h.changes.mono fun _ hl => ⟨d, by simp, hl⟩) h.wellFormed

theorem of_placed (h : Placed d tree fs fs') (hwf : fs'.WellFormed) : Touched [d] fs fs' :=
  of_within ⟨h.changes, hwf⟩

/-- A tree that lies apart from the locations is not touched. -/
theorem sameTree (h : Touched ds fs fs') (hapart : ∀ d ∈ ds, Apart l d) : SameTree l fs fs' := by
  refine .of_changes (fun r hr => ?_) h.changes
  rcases hr with ⟨d, hd, hin⟩ | ⟨⟨d, hd, habove⟩, -⟩
  · exact ((hapart d hd).append r).2 hin
  · exact ((hapart d hd).append r).1 habove

end Touched

namespace Site.Approach

theorem touched_of_opened (h : st.Approach Q fs) (hpre : names <+: st.names)
    (ho : Opened st.place names fs fs') : Touched [st.destination] fs fs' := by
  have habove : ∀ {l}, Gap fs st.place names l →
      (∃ d ∈ [st.destination], l <+: d) ∧ fs.lookup l = none := by
    intro l hgap
    obtain ⟨hl, hnone⟩ := prefix_of_gap hpre hgap
    exact ⟨⟨st.destination, by simp, hl⟩, hnone⟩
  refine ⟨⟨fun l hl => ?_, fun l hl => ?_, ho.changes.workingDirectory, ho.changes.distinct⟩,
    fun l _ hnone => ?_, (h.of_opened hpre ho).wellFormed⟩
  · exact ho.changes.lookup l fun hgap => hl (.inr (habove hgap))
  · exact ho.changes.names l fun n hgap => hl n (.inr (habove hgap))
  · by_cases hgap : Gap fs st.place names l
    · exact .inr (ho.created l hgap)
    · exact .inl ((ho.changes.lookup l hgap).trans hnone)

/-! ## Each part of an action -/

theorem leaves_removeAll (h : st.Approach Q fs) :
    Task.Leaves (removeAll st.path) fs (Touched [st.destination] fs) := by
  constructor
  · intro u fs' hres
    obtain ⟨h', hput⟩ := h.of_removeAll hres
    exact .of_placed hput h'.wellFormed
  · intro e fs' hres
    obtain rfl :=
      eq_of_removeAll_eq_error h.target h.place h.isName h.names_ne_nil h.noLinks h.off hres
    exact .refl h.wellFormed _

/-- Directories on the way down, made as far as they could be. -/
theorem touched_of_createDirectories_eq_error {cause : FileError} (h : st.Approach Q fs)
    (hpre : names <+: st.names) (hne : names ≠ [])
    (hlast : ∀ target, fs.lookup (st.place ++ names) ≠ some (.link target))
    (hres : createDirectories (st.target.descend names) fs = .error cause fs') :
    Touched [st.destination] fs fs' := by
  obtain ⟨pre, hp, ho⟩ := exists_opened_of_createDirectories_eq_error h.target h.place
    (fun n hn => h.isName n (hpre.subset hn)) hne (h.noLinks.restrict hpre) hlast hres
  exact h.touched_of_opened (hp.trans hpre) ho

/-- **What copying touches** after clearing. -/
theorem leaves_copyLevels (h : st.Approach Q fs) (hclear : Placed st.destination .empty fs₁ fs) :
    Task.Leaves (copyLevels levels source st.path) fs (Touched [st.destination] fs) := by
  cases levels with
  | zero =>
    refine ⟨fun u fs' hok => absurd hok copyLevels_zero_ne_ok, fun e fs' herror => ?_⟩
    cases herror
    exact .refl h.wellFormed _
  | succ levels =>
    rw [copyLevels_succ]
    refine Task.leaves_bind (fun e fs' herror => ?_) fun u fs₂ hok => ?_
    · obtain ⟨cause, hcreate, -⟩ := Task.forPath_eq_error.mp herror
      have hfree := hclear.lookup []
      rw [List.append_nil] at hfree
      refine h.touched_of_createDirectories_eq_error (List.prefix_refl _) h.names_ne_nil ?_ hcreate
      intro target htarget
      rw [destination] at hfree
      rw [hfree] at htarget
      exact absurd htarget (by simp [Tree.empty])
    · obtain ⟨-, hfits, ho⟩ := h.opened_path hclear (Task.forPath_eq_ok.mp hok)
      have h₂ := h.of_opened (List.prefix_refl _) ho
      have hreceiving : Receiving fs₂ st.path st.destination :=
        ⟨h₂.wellFormed, h₂.route_path ho.opens hfits.short, ho.opens _ (List.prefix_refl _),
          h.destination_ne_nil⟩
      have hcontents := leaves_copyContents (confines_copyLevels levels) source
        hreceiving (emptyBelow_of_opened hclear ho)
      exact hcontents.mono fun fs' hw =>
        (h.touched_of_opened (List.prefix_refl _) ho).trans (.of_within hw.1)

/-- **What linking touches**. -/
theorem leaves_linkTo (h : st.Approach Q fs) :
    Task.Leaves (linkTo source st.path) fs (Touched [st.destination] fs) := by
  obtain ⟨init, name, hnames, hinit, -⟩ := h.exists_names
  have hpre : init <+: st.names := by simp [hnames]
  have hproper : init ≠ st.names := by simp [hnames]
  rw [linkTo, h.parent?_path hnames hinit]
  refine Task.leaves_bind (fun e fs' herror => ?_) fun u fs₂ hok => ?_
  · obtain ⟨cause, hcreate, -⟩ := Task.forPath_eq_error.mp herror
    exact h.touched_of_createDirectories_eq_error hpre hinit (h.noLinks init hpre hproper) hcreate
  · obtain ⟨-, -, ho⟩ := h.opened_parent hnames hinit (Task.forPath_eq_ok.mp hok)
    have ht₂ := h.touched_of_opened hpre ho
    have h₂ := h.of_opened hpre ho
    have hremove := Task.leaves_forPath (p := st.path) h₂.leaves_removeAll
    refine Task.leaves_bind (fun e fs' herror => ht₂.trans (hremove.error e fs' herror))
      fun u fs₃ hok' => ?_
    have ht₃ := ht₂.trans (hremove.ok u fs₃ hok')
    refine Task.leaves_change ht₃ fun fs' hmake => ht₃.trans ?_
    obtain ⟨h₃, hclear, hway, -⟩ :=
      h₂.cleared_again hnames ho.opens (Task.forPath_eq_ok.mp hok')
    obtain ⟨hput, -, -⟩ := h₃.placed_of_makeLink hclear hway hmake
    have hwf := h₃.wellFormed_of_placed hput (Tree.wellFormed_leaf _) fun i n hn _ => by
      obtain ⟨rfl, -⟩ := List.append_inj' (hnames.symm.trans hn) rfl
      exact hway init hpre hproper
    exact .of_placed hput hwf

/-! ## Actions -/

theorem leaves_uninstallAction (h : st.Approach Q fs) (ha : a.destination = st.path) :
    Task.Leaves (Session.uninstallAction a) fs (Touched [st.destination] fs) := by
  rw [Session.uninstallAction, ha]
  exact Task.leaves_forPath h.leaves_removeAll

/-- **What an action touches**, whatever comes of it. -/
theorem leaves_installAction (mode : InstallMode) (h : st.Approach Q fs)
    (ha : a.destination = st.path) :
    Task.Leaves (Session.installAction mode a) fs (Touched [st.destination] fs) := by
  unfold Session.installAction
  rw [ha]
  have hremove := Task.leaves_forPath (p := st.path) h.leaves_removeAll
  refine Task.leaves_bind hremove.error fun u fs₁ hok => ?_
  have ht := hremove.ok u fs₁ hok
  obtain ⟨h₁, hclear⟩ := h.of_removeAll (Task.forPath_eq_ok.mp hok)
  cases mode with
  | copy => exact (h₁.leaves_copyLevels hclear).mono fun fs' hfs' => ht.trans hfs'
  | link => exact h₁.leaves_linkTo.mono fun fs' hfs' => ht.trans hfs'

end Site.Approach

/-! ## How actions fail -/

theorem failsOnFiles_copyEntry {copy : Path → Path → Task Unit}
    (hcopy : ∀ p q, Task.FailsOnFiles (copy p q)) (p q : Path) :
    Task.FailsOnFiles (copyEntry copy p q) := by
  refine (Task.failsOnFiles_look _).bind fun x => ?_
  obtain ⟨l, e⟩ := x
  cases e with
  | link target => exact Task.failsOnFiles_change _
  | directory mode => exact (hcopy p q).bind fun _ => Task.failsOnFiles_change _
  | file mode content =>
    exact (Task.failsOnFiles_change _).bind fun _ => Task.failsOnFiles_change _

theorem failsOnFiles_copyLevels (levels : Nat) (p q : Path) :
    Task.FailsOnFiles (copyLevels levels p q) := by
  induction levels generalizing p q with
  | zero =>
    intro fs e fs' h
    cases h
    rfl
  | succ levels ih =>
    refine (Task.failsOnFiles_forPath _).bind fun _ =>
      (Task.failsOnFiles_look _).bind fun names => ?_
    refine (Task.failsOnFiles_forM (fun n => failsOnFiles_copyEntry ih _ _) names).bind fun _ => ?_
    exact (Task.failsOnFiles_look _).bind fun _ => Task.failsOnFiles_change _

theorem failsOnFiles_linkTo (target p : Path) : Task.FailsOnFiles (linkTo target p) := by
  have hlink : Task.FailsOnFiles (do
      Task.forPath p (removeAll p)
      Task.change p (·.makeLink target p)) :=
    (Task.failsOnFiles_forPath _).bind fun _ => Task.failsOnFiles_change _
  rw [linkTo]
  cases p.parent? with
  | none => exact hlink
  | some parent => exact (Task.failsOnFiles_forPath _).bind fun _ => hlink

theorem failsOnFiles_uninstallAction (a : Action) : Task.FailsOnFiles (Session.uninstallAction a) :=
  Task.failsOnFiles_forPath _

/-- An action fails as the file system does. -/
theorem failsOnFiles_installAction (mode : InstallMode) (a : Action) :
    Task.FailsOnFiles (Session.installAction mode a) := by
  refine (Task.failsOnFiles_forPath _).bind fun _ => ?_
  cases mode with
  | copy => exact failsOnFiles_copyLevels _ _ _
  | link => exact failsOnFiles_linkTo _ _

end PluginManager
