import PluginManager.Install
import PluginManager.Proofs.FileSystem.Recopy
import PluginManager.Proofs.FileSystem.Remove

/-!
# One component

What installing does at one place: whatever is there goes, what leads there is made, and the
component is put in.

* `Site`: where a component comes from and where it goes.
* `Site.Approach`: the target root is followed past the destination, and no link is on the way down.
* `Site.Ready`: so is the component.
* `Laid`: a tree was put at a location with all that encloses it.
* `laid_of_copy`, `laid_of_link`: **what the two modes lay**.
-/

namespace PluginManager

open FileSystem

/-- A component to be put at `names` below a target root: the root as a path and as a location, the
names, and the component in the same two ways. -/
structure Site where
  target : Path
  place : Location
  names : List String
  source : Path
  origin : Location

namespace Site

variable {st : Site} {Q : Location → Prop} {fs fs' fs₁ : FileSystem} {l : Location} {tree : Tree}

def path (st : Site) : Path := st.target.descend st.names

def destination (st : Site) : Location := st.place ++ st.names

/-- The target root is followed through `Q`, which the destination is not in. -/
structure Approach (st : Site) (Q : Location → Prop) (fs : FileSystem) : Prop where
  wellFormed : fs.WellFormed
  isName : ∀ n ∈ st.names, IsName n
  deep : 2 ≤ st.names.length
  off : ∀ l, Q l → ¬ st.destination <+: l
  target : Route fs Q st.target st.place
  place : fs.isDirectoryAt st.place = true
  noLinks : NoLinks fs st.place st.names

/-- All that is followed lies in `Q`, the component included. -/
structure Ready (st : Site) (Q : Location → Prop) (fs : FileSystem) : Prop
    extends st.Approach Q fs where
  source : Route fs Q st.source st.origin
  origin : fs.isDirectoryAt st.origin = true
  apart : Apart st.origin st.destination

/-- The tree is at `d`, what encloses `d` is there, and nothing else is different. -/
structure Laid (d : Location) (tree : Tree) (fs fs' : FileSystem) : Prop where
  changes : ChangesOnly (fun l => d <+: l ∨ l <+: d ∧ fs.lookup l = none) fs fs'
  tree : fs'.treeAt d = tree
  encloses : ∀ l, l <+: d → l ≠ d → fs.lookup l = none →
    fs'.lookup l = some (.directory newDirectoryMode)
  wellFormed : fs'.WellFormed

theorem not_within {pre : List String} (hpre : pre <+: st.names) (hne : pre ≠ st.names) :
    ¬ st.destination <+: st.place ++ pre := by
  intro hp
  have hle := (List.prefix_append_right_inj st.place).mp hp
  exact hne (hpre.eq_of_length_le hle.length_le)

namespace Approach

theorem names_ne_nil (h : st.Approach Q fs) : st.names ≠ [] := by
  intro hnil
  have hdeep := h.deep
  rw [hnil] at hdeep
  exact absurd hdeep (by decide)

theorem destination_ne_nil (h : st.Approach Q fs) : st.destination ≠ [] := by
  simp [destination, h.names_ne_nil]

/-- The last of the names and those before it. -/
theorem exists_names (h : st.Approach Q fs) :
    ∃ init name, st.names = init ++ [name] ∧ init ≠ [] ∧ IsName name := by
  obtain ⟨init, name, hnames⟩ := List.eq_nil_or_concat st.names |>.resolve_left h.names_ne_nil
  rw [List.concat_eq_append] at hnames
  refine ⟨init, name, hnames, ?_, h.isName name (by simp [hnames])⟩
  rintro rfl
  have hdeep := h.deep
  rw [hnames] at hdeep
  exact absurd hdeep (by simp)

/-- Whatever is done at the destination leaves the way to it as it was. -/
theorem of_changes (h : st.Approach Q fs) (hc : ChangesOnly (st.destination <+: ·) fs fs')
    (hwf : fs'.WellFormed) : st.Approach Q fs' := by
  have hold : Holds Q fs fs' := hc.holds h.off
  refine ⟨hwf, h.isName, h.deep, h.off, h.target.of_holds hold hc.workingDirectory, ?_,
    h.noLinks.of_made fun pre hpre hne => .inl (hc.lookup _ (not_within hpre hne))⟩
  rw [FileSystem.isDirectoryAt, hc.lookup _ (h.off _ h.target.ends)]
  exact h.place

end Approach

/-- Whatever is done at the destination leaves the rest of the site as it was. -/
theorem Ready.of_changes (h : st.Ready Q fs) (hc : ChangesOnly (st.destination <+: ·) fs fs')
    (hwf : fs'.WellFormed) : st.Ready Q fs' := by
  refine ⟨h.toApproach.of_changes hc hwf,
    h.source.of_holds (hc.holds h.off) hc.workingDirectory, ?_, h.apart⟩
  rw [FileSystem.isDirectoryAt, hc.lookup _ (h.off _ h.source.ends)]
  exact h.origin

/-! ## Clearing the place -/

theorem Approach.wellFormed_of_placed (h : st.Approach Q fs)
    (hput : Placed st.destination tree fs fs') (htree : tree.WellFormed)
    (hparent : ∀ init name, st.names = init ++ [name] → tree [] ≠ none →
      fs.isDirectoryAt (st.place ++ init) = true) : fs'.WellFormed := by
  obtain ⟨init, name, hnames, -, hname⟩ := h.exists_names
  have hput' := hput
  rw [destination, hnames, ← List.append_assoc] at hput'
  exact hput'.wellFormed h.wellFormed htree fun hne => ⟨hname, hparent init name hnames hne⟩

/-- Removing leaves the way as it was, with nothing at its end. -/
theorem Approach.of_removeAll (h : st.Approach Q fs) (hres : removeAll st.path fs = .ok () fs') :
    st.Approach Q fs' ∧ Placed st.destination .empty fs fs' := by
  have hput := placed_of_removeAll h.target h.place h.isName h.names_ne_nil h.wellFormed h.noLinks
    h.off hres
  have hwf := h.wellFormed_of_placed hput Tree.wellFormed_empty fun _ _ _ hne => absurd rfl hne
  exact ⟨h.of_changes hput.changes hwf, hput⟩

theorem Ready.of_removeAll (h : st.Ready Q fs) (hres : removeAll st.path fs = .ok () fs') :
    st.Ready Q fs' ∧ Placed st.destination .empty fs fs' := by
  obtain ⟨happroach, hput⟩ := h.toApproach.of_removeAll hres
  exact ⟨h.of_changes hput.changes happroach.wellFormed, hput⟩

/-! ## Making what leads there -/

/-- Making directories on the way leads nowhere else. -/
theorem Approach.of_opened {names : List String} (h : st.Approach Q fs) (hpre : names <+: st.names)
    (ho : Opened st.place names fs fs') : st.Approach Q fs' := by
  have hnames : ∀ n ∈ names, IsName n := fun n hn => h.isName n (hpre.subset hn)
  refine ⟨ho.wellFormed h.wellFormed h.place hnames, h.isName, h.deep, h.off, ho.route h.target,
    ho.isDirectoryAt, h.noLinks.of_made fun pre _ _ => ?_⟩
  by_cases hgap : Gap fs st.place names (st.place ++ pre)
  · exact .inr ⟨_, ho.created _ hgap⟩
  · exact .inl (ho.changes.lookup _ hgap)

theorem Ready.of_opened {names : List String} (h : st.Ready Q fs) (hpre : names <+: st.names)
    (ho : Opened st.place names fs fs') : st.Ready Q fs' := by
  refine ⟨h.toApproach.of_opened hpre ho, ho.route h.source, ?_, h.apart⟩
  obtain ⟨mode, hmode⟩ := isDirectoryAt_iff.mp h.origin
  exact isDirectoryAt_of_lookup (ho.holds (fun _ => True) _ _ trivial hmode)

theorem prefix_of_gap {names : List String} (hpre : names <+: st.names)
    (hl : Gap fs st.place names l) : l <+: st.destination ∧ fs.lookup l = none := by
  obtain ⟨hnone, pre, hp, rfl⟩ := hl
  exact ⟨(List.prefix_append_right_inj st.place).mpr (hp.trans hpre), hnone⟩

/-- What is missing above the destination is missing below the target root. -/
theorem Approach.gap_of_prefix (h : st.Approach Q fs) {init : List String} {name : String}
    (hnames : st.names = init ++ [name]) (hl : l <+: st.destination) (hne : l ≠ st.destination)
    (hnone : fs.lookup l = none) : Gap fs st.place init l := by
  refine ⟨hnone, ?_⟩
  rw [destination, hnames, ← List.append_assoc] at hl hne
  have hinit : l <+: st.place ++ init := prefix_concat_cases hl hne
  rcases List.prefix_or_prefix_of_prefix hinit (List.prefix_append st.place init) with hp | hp
  · -- A missing location does not enclose the root.
    obtain ⟨r, hr⟩ := hp
    obtain ⟨mode, hmode⟩ := isDirectoryAt_iff.mp h.place
    rw [← hr] at hmode
    have hempty := congrFun (h.wellFormed.treeAt_eq_empty hnone) r
    rw [FileSystem.treeAt, hmode] at hempty
    exact absurd hempty (by simp [Tree.empty])
  · obtain ⟨pre, rfl⟩ := hp
    exact ⟨pre, (List.prefix_append_right_inj st.place).mp hinit, rfl⟩

/-! ## Laying a tree -/

/-- Clearing, opening and placing make up laying. -/
theorem Approach.laid {names init : List String} {name : String} {fs₂ : FileSystem}
    (h : st.Approach Q fs) (hnames : st.names = init ++ [name]) (hpre : names <+: st.names)
    (hinit : init <+: names) (hclear : Placed st.destination .empty fs fs₁)
    (hopen : Opened st.place names fs₁ fs₂) (hput : Placed st.destination tree fs₂ fs')
    (hwf : fs'.WellFormed) : Laid st.destination tree fs fs' := by
  have habove : ∀ l, l <+: st.destination → l ≠ st.destination → ¬ st.destination <+: l :=
    fun l hl hne hd => hne (hl.eq_of_length_le hd.length_le)
  refine ⟨⟨?_, ?_, ?_, ?_⟩, hput.tree, ?_, hwf⟩
  · intro l hl
    rw [not_or] at hl
    have hsame := hclear.changes.lookup l hl.1
    rw [hput.changes.lookup l hl.1, hopen.changes.lookup, hsame]
    intro hgap
    obtain ⟨hp, hnone⟩ := prefix_of_gap hpre hgap
    exact hl.2 ⟨hp, hsame ▸ hnone⟩
  · intro l hl
    have hout : ∀ n, ¬ st.destination <+: l ++ [n] := fun n hd => hl n (.inl hd)
    rw [hput.changes.names l hout, hopen.changes.names, hclear.changes.names l hout]
    intro n hgap
    obtain ⟨hp, hnone⟩ := prefix_of_gap hpre hgap
    exact hl n (.inr ⟨hp, hclear.changes.lookup _ (hout n) ▸ hnone⟩)
  · rw [hput.changes.workingDirectory, hopen.changes.workingDirectory,
      hclear.changes.workingDirectory]
  · exact hput.changes.distinct ∘ hopen.changes.distinct ∘ hclear.changes.distinct
  · intro l hl hne hnone
    have hnone₁ : fs₁.lookup l = none := by
      rw [hclear.changes.lookup l (habove l hl hne), hnone]
    obtain ⟨-, pre, hp, hgap⟩ := h.gap_of_prefix hnames hl hne hnone
    rw [hput.changes.lookup l (habove l hl hne)]
    exact hopen.created l ⟨hnone₁, pre, hp.trans hinit, hgap⟩

/-! ## Copies -/

/-- With the way open the path leads to the destination, past all below it. -/
theorem Approach.route_path (h : st.Approach Q fs) (hopen : Open fs st.place st.names)
    (hshort : ∀ n ∈ st.names, n.utf8ByteSize ≤ nameLimit) :
    Route fs (fun l => ¬ Below st.destination l) st.path st.destination := by
  have htarget : Route fs (fun l => ¬ Below st.destination l) st.target st.place :=
    h.target.mono fun l hl hb => h.off l hl hb.1
  refine htarget.descend hopen h.isName hshort ?_
  intro pre hpre hb
  exact hb.2 (hb.1.eq_of_length_le
    ((List.prefix_append_right_inj st.place).mpr hpre).length_le).symm

theorem emptyBelow_of_opened (hempty : Placed st.destination .empty fs₁ fs)
    (ho : Opened st.place st.names fs fs') : EmptyBelow fs' st.destination := by
  intro r hr
  rw [destination, List.append_assoc, ho.lookup_append hr, ← List.append_assoc]
  exact hempty.lookup r

/-- With the way open and nothing below the destination, the two directories can be copied. -/
theorem Ready.copying (h : st.Ready Q fs) (hempty : Placed st.destination .empty fs₁ fs)
    (ho : Opened st.place st.names fs fs')
    (hshort : ∀ n ∈ st.names, n.utf8ByteSize ≤ nameLimit) :
    Overlaying fs' st.source st.path st.origin st.destination ∧ EmptyBelow fs' st.destination ∧
      SameTree st.origin fs fs' := by
  have h' := h.of_opened (List.prefix_refl _) ho
  refine ⟨⟨h'.wellFormed, h'.source.mono fun _ _ => trivial, h'.origin,
    (h'.route_path ho.opens hshort).mono fun _ _ => trivial, ho.opens _ (List.prefix_refl _),
    h.apart⟩, emptyBelow_of_opened hempty ho, ?_⟩
  refine .of_changes (fun r hgap => ?_) ho.changes
  have hp := (prefix_of_gap (List.prefix_refl _) hgap).1
  exact h.apart.1 ((List.prefix_append _ r).trans hp)

/-- The directory for a copy was opened if it could be made. -/
theorem Approach.opened_path (h : st.Approach Q fs) (hempty : Placed st.destination .empty fs₁ fs)
    (hres : createDirectories st.path fs = .ok () fs') :
    Passable fs st.place st.names ∧ Fits st.target st.names ∧
      Opened st.place st.names fs fs' := by
  have hfree := hempty.lookup []
  rw [List.append_nil] at hfree
  refine opened_of_createDirectories h.target h.place h.isName h.names_ne_nil h.noLinks
    (fun target htarget => ?_) hres
  rw [destination] at hfree
  rw [hfree] at htarget
  exact absurd htarget (by simp [Tree.empty])

theorem Approach.fits_of_copy {levels : Nat} {source : Path} (h : st.Approach Q fs)
    (hremove : removeAll st.path fs = .ok () fs₁)
    (hcopy : copyLevels levels source st.path fs₁ = .ok () fs') : Fits st.target st.names := by
  obtain ⟨h₁, hclear⟩ := h.of_removeAll hremove
  cases levels with
  | zero => exact absurd hcopy copyLevels_zero_ne_ok
  | succ levels =>
    rw [copyLevels_succ] at hcopy
    obtain ⟨_, fs₂, hcreate, -⟩ := Task.bind_eq_ok.mp hcopy
    exact (h₁.opened_path hclear (Task.forPath_eq_ok.mp hcreate)).2.1

/-- **What copying lays** after clearing: the tree of the component. -/
theorem Ready.laid_of_copy {levels : Nat} (h : st.Ready Q fs)
    (hremove : removeAll st.path fs = .ok () fs₁)
    (hcopy : copyLevels levels st.source st.path fs₁ = .ok () fs') :
    Laid st.destination (fs.treeAt st.origin) fs fs' := by
  obtain ⟨h₁, hclear⟩ := h.of_removeAll hremove
  obtain ⟨init, name, hnames, -, -⟩ := h.exists_names
  cases levels with
  | zero =>
    exact absurd hcopy copyLevels_zero_ne_ok
  | succ levels =>
    rw [copyLevels_succ] at hcopy
    obtain ⟨_, fs₂, hcreate, hcontents⟩ := Task.bind_eq_ok.mp hcopy
    obtain ⟨-, hfits, ho⟩ := h₁.opened_path hclear (Task.forPath_eq_ok.mp hcreate)
    obtain ⟨hcopying, hempty, hsame⟩ := h₁.copying hclear ho hfits.short
    have hput := placed_of_copyContents hcopying hempty hcontents
    rw [hsame.treeAt, (hclear.sameTree h.apart).treeAt] at hput
    have hwf := (h₁.of_opened (List.prefix_refl _) ho).wellFormed_of_placed hput
      (h.wellFormed.treeAt _) fun init name hn _ => ho.opens init (by simp [hn])
    exact h.laid hnames (List.prefix_refl _) (by simp [hnames]) hclear ho hput hwf

/-! ## Links -/

theorem linkTo_eq_ok {target p parent : Path} (hp : p.parent? = some parent) {u : Unit} :
    linkTo target p fs = .ok u fs' ↔ ∃ fs₁ fs₂, createDirectories parent fs = .ok () fs₁ ∧
      removeAll p fs₁ = .ok () fs₂ ∧ makeLink fs₂ target p = .ok fs' := by
  rw [linkTo, hp]
  constructor
  · intro h
    obtain ⟨_, fs₁, hcreate, h⟩ := Task.bind_eq_ok.mp h
    obtain ⟨_, fs₂, hremove, h⟩ := Task.bind_eq_ok.mp h
    exact ⟨fs₁, fs₂, Task.forPath_eq_ok.mp hcreate, Task.forPath_eq_ok.mp hremove,
      Task.change_eq_ok.mp h⟩
  · rintro ⟨fs₁, fs₂, hcreate, hremove, h⟩
    exact Task.bind_eq_ok.mpr ⟨(), fs₁, Task.forPath_eq_ok.mpr hcreate,
      Task.bind_eq_ok.mpr ⟨(), fs₂, Task.forPath_eq_ok.mpr hremove, Task.change_eq_ok.mpr h⟩⟩

theorem Approach.parent?_path (h : st.Approach Q fs) {init : List String} {name : String}
    (hnames : st.names = init ++ [name]) (hinit : init ≠ []) :
    st.path.parent? = some (st.target.descend init) := by
  have hall := h.isName
  rw [hnames] at hall
  rw [path, hnames]
  exact Path.parent?_descend st.target hall hinit

/-- The directory for a link was opened if it could be made. -/
theorem Approach.opened_parent (h : st.Approach Q fs) {init : List String} {name : String}
    (hnames : st.names = init ++ [name]) (hinit : init ≠ [])
    (hres : createDirectories (st.target.descend init) fs = .ok () fs') :
    Passable fs st.place init ∧ Fits st.target init ∧ Opened st.place init fs fs' := by
  have hpre : init <+: st.names := by simp [hnames]
  have hproper : init ≠ st.names := by simp [hnames]
  have hinames : ∀ n ∈ init, IsName n := fun n hn => h.isName n (hpre.subset hn)
  exact opened_of_createDirectories h.target h.place hinames hinit (h.noLinks.restrict hpre)
    (h.noLinks init hpre hproper) hres

/-- The link is made on a clear way, with nothing at its end. -/
theorem Approach.cleared_again (h : st.Approach Q fs) {init : List String} {name : String}
    (hnames : st.names = init ++ [name]) (hopen : Open fs st.place init)
    (hremove : removeAll st.path fs = .ok () fs') :
    st.Approach Q fs' ∧ Placed st.destination .empty fs fs' ∧ Clear fs' st.place st.names ∧
      fs'.lookup st.destination = none := by
  have hpre : init <+: st.names := by simp [hnames]
  have hproper : init ≠ st.names := by simp [hnames]
  obtain ⟨h', hclear⟩ := h.of_removeAll hremove
  have hopen' : Open fs' st.place init := fun pre hp => by
    have hp' : pre ≠ st.names := by
      rintro rfl
      exact hproper (hpre.eq_of_length_le hp.length_le)
    rw [FileSystem.isDirectoryAt, hclear.changes.lookup _ (not_within (hp.trans hpre) hp')]
    exact hopen pre hp
  have hfree := hclear.lookup []
  rw [List.append_nil] at hfree
  refine ⟨h', hclear, ?_, hfree⟩
  rw [hnames]
  exact hopen'.concat

/-- The link is all that is there. -/
theorem Approach.placed_of_makeLink {source : Path} (h : st.Approach Q fs)
    (hclear : Placed st.destination .empty fs₁ fs) (hway : Clear fs st.place st.names)
    (hmake : makeLink fs source st.path = .ok fs') :
    Placed st.destination (.leaf (.link source)) fs fs' ∧ Fits st.target st.names ∧
      Usable source := by
  have hfree := hclear.lookup []
  rw [List.append_nil] at hfree
  obtain ⟨hfits, ht⟩ := fits_of_makeLink h.target h.place h.isName h.names_ne_nil hway hmake
  have hmade := makeLink_descend h.target h.place h.isName h.names_ne_nil hway hfits ht hfree
  rw [path, hmade] at hmake
  obtain rfl := Except.ok.inj hmake
  exact ⟨placed_insert h.destination_ne_nil (fun r _ => hclear.lookup r) (.link source), hfits, ht⟩

/-- **What linking lays** after clearing: a link to the component. -/
theorem Ready.laid_of_link (h : st.Ready Q fs) (hremove : removeAll st.path fs = .ok () fs₁)
    (hlink : linkTo st.source st.path fs₁ = .ok () fs') :
    Laid st.destination (.leaf (.link st.source)) fs fs' ∧ Fits st.target st.names ∧
      Usable st.source := by
  obtain ⟨h₁, hclear⟩ := h.of_removeAll hremove
  obtain ⟨init, name, hnames, hinit, -⟩ := h.exists_names
  have hpre : init <+: st.names := by simp [hnames]
  obtain ⟨fs₂, fs₃, hcreate, hremove', hmake⟩ :=
    (linkTo_eq_ok (h.parent?_path hnames hinit)).mp hlink
  obtain ⟨-, -, ho⟩ := h₁.opened_parent hnames hinit hcreate
  have h₂ := h₁.of_opened hpre ho
  obtain ⟨h₃, hclear', hway, -⟩ := h₂.cleared_again hnames ho.opens hremove'
  obtain ⟨hput, hfits, ht⟩ := h₃.placed_of_makeLink hclear' hway hmake
  have hput := hclear'.trans hput
  have hwf := h₂.wellFormed_of_placed hput (Tree.wellFormed_leaf _) fun i n hn _ => by
    obtain ⟨rfl, -⟩ := List.append_inj' (hnames.symm.trans hn) rfl
    exact ho.opens init (List.prefix_refl _)
  exact ⟨h.laid hnames hpre (List.prefix_refl _) hclear ho hput hwf, hfits, ht⟩

end Site

end PluginManager
