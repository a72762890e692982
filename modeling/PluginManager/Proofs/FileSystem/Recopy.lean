import PluginManager.Proofs.FileSystem.Overlay

/-!
# Copying again

Whether a tree can be copied depends on the tree and on the texts of the two paths.  What else the
file system holds does not matter, as long as the destination is empty.

* `makeLink_child`, `copyFile_child`: when one entry can be copied to a free name.
* `Repeats`: a success in one file system is one in another that has the same tree.
* `copyEntry_ok`, `copyEntries_ok`, `copyContents_ok`: the parts.
* `repeats_copyLevels`: **what was copied once can be copied again**.
-/

namespace PluginManager.FileSystem

variable {fs fs' fs₁ : FileSystem} {source destination p : Path} {s d l : Location} {name : String}
  {names : List String} {e : Entry} {levels : Nat} {copy : Path → Path → Task Unit}

/-! ## One entry -/

section Entry

variable (h : Overlaying fs source destination s d) (hname : IsName name)

include h hname

/-- The mode of what was just put in the destination. -/
theorem setMode_child {mode : Nat} (he : fs.lookup (d ++ [name]) = some e)
    (hlink : e.isLink = false) (hfits : Fits destination [name]) :
    setMode fs (destination.child name) mode = .ok (fs.insert (d ++ [name]) (e.setMode mode)) :=
  setMode_of_find (find_of_child h.destination h.destinationAt hname hfits he (.inr hlink))
    append_singleton_ne_nil

theorem fits_of_setMode_child {mode : Nat}
    (hres : setMode fs (destination.child name) mode = .ok fs') : Fits destination [name] := by
  obtain ⟨k, e, hfind⟩ := exists_find_of_setMode hres
  obtain ⟨spot, hspot, -⟩ := find_eq_ok_iff.mp hfind
  exact fits_of_resolve_child h.destination h.destinationAt hname hspot

variable (hfree : fs.lookup (d ++ [name]) = none)

include hfree

theorem makeLink_child {target : Path} :
    makeLink fs target (destination.child name) = .ok fs' ↔
      (Fits destination [name] ∧ Usable target) ∧
        fs' = fs.insert (d ++ [name]) (.link target) := by
  have hnames : ∀ n ∈ [name], IsName n := by simp [hname]
  have hclear := clear_singleton h.destinationAt name
  rw [Path.child_eq_descend]
  constructor
  · intro hlink
    obtain ⟨hfits, ht⟩ :=
      fits_of_makeLink h.destination h.destinationAt hnames (by simp) hclear hlink
    have heq :=
      makeLink_descend h.destination h.destinationAt hnames (by simp) hclear hfits ht hfree
    exact ⟨⟨hfits, ht⟩, Except.ok.inj (hlink.symm.trans heq)⟩
  · rintro ⟨⟨hfits, ht⟩, rfl⟩
    exact makeLink_descend h.destination h.destinationAt hnames (by simp) hclear hfits ht hfree

theorem copyFile_child {mode : Nat} {content : Bytes} (hfits : Fits source [name])
    (he : fs.lookup (s ++ [name]) = some (.file mode content)) :
    copyFile fs (source.child name) (destination.child name) = .ok fs' ↔
      Fits destination [name] ∧ fs' = fs.setContent (d ++ [name]) mode content := by
  have hnames : ∀ n ∈ [name], IsName n := by simp [hname]
  have hclear := clear_singleton h.destinationAt name
  have hfind := find_of_child h.source h.sourceAt hname hfits he (.inr rfl : true = false ∨ _)
  have hne : s ++ [name] ≠ d ++ [name] := (h.apart.append_append [name] [name]).ne
  rw [Path.child_eq_descend destination]
  constructor
  · intro hcopy
    have hfits' :=
      fits_of_copyFile h.destination h.destinationAt hnames (by simp) hclear hfree hcopy
    have heq := copyFile_descend h.destination h.destinationAt hnames (by simp) hclear hfits' hfind
      hfree hne
    exact ⟨hfits', Except.ok.inj (hcopy.symm.trans heq)⟩
  · rintro ⟨hfits', rfl⟩
    exact copyFile_descend h.destination h.destinationAt hnames (by simp) hclear hfits' hfind
      hfree hne

/-- A new directory for the contents of one in the source. -/
theorem createDirectories_child_ok (hfits : Fits destination [name]) :
    ∃ fs', createDirectories (destination.child name) fs = .ok () fs' ∧
      Opened d [name] fs fs' := by
  have hpass : Passable fs d [name] :=
    .of_clear (clear_singleton h.destinationAt name) (.inl hfree)
  rw [Path.child_eq_descend]
  exact createDirectories_ok h.destination h.destinationAt (by simp [hname]) (by simp) hpass hfits

theorem fits_of_createDirectories_child
    (hres : createDirectories (destination.child name) fs = .ok () fs') :
    Fits destination [name] ∧ Opened d [name] fs fs' := by
  have hclear := clear_singleton h.destinationAt name
  rw [Path.child_eq_descend] at hres
  obtain ⟨-, hopened⟩ := opened_of_createDirectories h.destination h.destinationAt (by simp [hname])
    (by simp) hclear.noLinks (by simp [hfree]) hres
  exact hopened

/-- A directory that was copied is there, and the two directories are as they were. -/
theorem overlaying_of_copy {mode : Nat} (hcopy : Overlays copy)
    (hshort : name.utf8ByteSize ≤ nameLimit) (he : fs.lookup (s ++ [name]) = some (.directory mode))
    (hres : copy (source.child name) (destination.child name) fs = .ok () fs') :
    Overlaying fs' source destination s d ∧
      fs'.lookup (d ++ [name]) = some (.directory mode) := by
  have hlinks := h.wellFormed.linkFree hfree
  have ho := hcopy h hname hshort (isDirectoryAt_of_lookup he) hlinks hres
  have htop := (ho.placed_of_free h.wellFormed hfree).lookup []
  rw [List.append_nil, treeAt, List.append_nil, he] at htop
  exact ⟨h.of_overlaid hname hlinks ho, htop⟩

end Entry

/-! ## The same tree elsewhere -/

def Repeats (copy : Path → Path → Task Unit) : Prop :=
  ∀ ⦃fs fs₁ fs' source destination s d name⦄, Overlaying fs source destination s d →
    Overlaying fs₁ source destination s d → SameTree s fs fs₁ → IsName name →
    name.utf8ByteSize ≤ nameLimit → fs.isDirectoryAt (s ++ [name]) = true →
    fs.lookup (d ++ [name]) = none → fs₁.lookup (d ++ [name]) = none →
    copy (source.child name) (destination.child name) fs = .ok () fs' →
    ∃ fs₁', copy (source.child name) (destination.child name) fs₁ = .ok () fs₁'

/-- Names that are free stay free when another name is taken. -/
theorem free_of_placed {tree : Tree} (hput : Placed (d ++ [name]) tree fs fs') (hnot : name ∉ names)
    (hfree : ∀ n ∈ names, fs.lookup (d ++ [n]) = none) :
    ∀ n ∈ names, fs'.lookup (d ++ [n]) = none := by
  intro n hn
  rw [hput.changes.lookup, hfree n hn]
  intro hp
  rw [← List.append_nil (d ++ [n])] at hp
  exact hnot (eq_of_prefix_concat hp ▸ hn)

section

variable (h : Overlaying fs source destination s d) (h₁ : Overlaying fs₁ source destination s d)
  (hsame : SameTree s fs fs₁)

include h h₁ hsame

theorem copyEntry_ok (hoverlays : Overlays copy) (hcopy : Repeats copy) (hname : IsName name)
    (hfree : fs.lookup (d ++ [name]) = none) (hfree₁ : fs₁.lookup (d ++ [name]) = none)
    (hres : copyEntry copy (source.child name) (destination.child name) fs = .ok () fs') :
    ∃ fs₁', copyEntry copy (source.child name) (destination.child name) fs₁ = .ok () fs₁' := by
  obtain ⟨l, e, hfind, hdo⟩ := copyEntry_eq_ok.mp hres
  obtain ⟨hfits, rfl, he⟩ := lookup_of_find_child h.source h.sourceAt hname hfind
  have he₁ : fs₁.lookup (s ++ [name]) = some e := by rw [hsame.lookup, he]
  have hfind₁ := find_of_child h₁.source h₁.sourceAt hname hfits he₁ (.inl rfl : false = false ∨ _)
  cases e with
  | link target =>
    obtain ⟨hfits', -⟩ := (makeLink_child h hname hfree).mp hdo
    exact ⟨_, copyEntry_eq_ok.mpr
      ⟨_, _, hfind₁, (makeLink_child h₁ hname hfree₁).mpr ⟨hfits', rfl⟩⟩⟩
  | file mode content =>
    obtain ⟨fs₂, hfile, -⟩ := hdo
    obtain ⟨hfits', -⟩ := (copyFile_child h hname hfree hfits he).mp hfile
    have hplace : IsPlace fs₁ (d ++ [name]) := ⟨d, name, rfl, hname, h₁.destinationAt⟩
    have hnone : ∀ e, fs₁.lookup (d ++ [name]) = some e → e.isFile = true := by simp [hfree₁]
    have h₂ := h₁.of_guides (guides_setContent hplace hnone mode content)
      (wellFormed_setContent hplace hnone h₁.wellFormed mode content)
    have he₂ := lookup_setContent fs₁ hplace.ne_nil mode content (d ++ [name])
    rw [if_pos rfl] at he₂
    exact ⟨_, copyEntry_eq_ok.mpr ⟨_, _, hfind₁, _,
      (copyFile_child h₁ hname hfree₁ hfits he₁).mpr ⟨hfits', rfl⟩,
      setMode_child h₂ hname he₂ rfl hfits'⟩⟩
  | directory mode =>
    obtain ⟨fs₂, htree, hmode⟩ := hdo
    have hshort := hfits.short name (by simp)
    obtain ⟨fs₂', htree₁⟩ :=
      hcopy h h₁ hsame hname hshort (isDirectoryAt_of_lookup he) hfree hfree₁ htree
    obtain ⟨hafter, -⟩ := overlaying_of_copy h hname hfree hoverlays hshort he htree
    have hfits' := fits_of_setMode_child hafter hname hmode
    obtain ⟨h₂, he₂⟩ := overlaying_of_copy h₁ hname hfree₁ hoverlays hshort he₁ htree₁
    exact ⟨_, copyEntry_eq_ok.mpr
      ⟨_, _, hfind₁, fs₂', htree₁, setMode_child h₂ hname he₂ rfl hfits'⟩⟩

theorem copyEntries_ok (hoverlays : Overlays copy) (hcopy : Repeats copy) (hnodup : names.Nodup)
    (hnames : ∀ name ∈ names, IsName name) (hfree : ∀ name ∈ names, fs.lookup (d ++ [name]) = none)
    (hfree₁ : ∀ name ∈ names, fs₁.lookup (d ++ [name]) = none)
    (hres : (names.forM fun name =>
      copyEntry copy (source.child name) (destination.child name) : Task Unit) fs = .ok () fs') :
    ∃ fs₁', (names.forM fun name =>
      copyEntry copy (source.child name) (destination.child name) : Task Unit) fs₁ =
        .ok () fs₁' := by
  induction names generalizing fs fs₁ with
  | nil => exact ⟨fs₁, Task.forM_nil_eq_ok.mpr rfl⟩
  | cons name rest ih =>
    obtain ⟨fs₂, hfirst, hrest⟩ := Task.forM_cons_eq_ok.mp hres
    have hname := hnames name List.mem_cons_self
    have hhere := hfree name List.mem_cons_self
    have hhere₁ := hfree₁ name List.mem_cons_self
    obtain ⟨fs₂', hfirst₁⟩ := copyEntry_ok h h₁ hsame hoverlays hcopy hname hhere hhere₁ hfirst
    -- Both file systems go on with the name copied, and the source as it was.
    have hlinks := h.wellFormed.linkFree hhere
    have hlinks₁ := h₁.wellFormed.linkFree hhere₁
    have ho := overlaid_of_copyEntry h hname hlinks hoverlays hfirst
    have ho₁ := overlaid_of_copyEntry h₁ hname hlinks₁ hoverlays hfirst₁
    have hapart : ∀ r, ¬ d ++ [name] <+: s ++ r :=
      fun r hp => (h.apart.append r).2 (below_of_prefix_concat hp).1
    have hkept := SameTree.of_changes hapart ho.placed.changes
    have hkept₁ := SameTree.of_changes hapart ho₁.placed.changes
    obtain ⟨hnot, hnodup'⟩ := List.nodup_cons.mp hnodup
    obtain ⟨fs₁', hrest₁⟩ := ih (h.of_overlaid hname hlinks ho) (h₁.of_overlaid hname hlinks₁ ho₁)
      ((hkept.symm.trans hsame).trans hkept₁)
      hnodup' (fun n hn => hnames n (List.mem_cons_of_mem name hn))
      (free_of_placed ho.placed hnot fun n hn => hfree n (List.mem_cons_of_mem name hn))
      (free_of_placed ho₁.placed hnot fun n hn => hfree₁ n (List.mem_cons_of_mem name hn)) hrest
    exact ⟨fs₁', Task.forM_cons_eq_ok.mpr ⟨fs₂', hfirst₁, hrest₁⟩⟩

theorem copyContents_ok (hcopy : Repeats (copyLevels levels)) (hempty : EmptyBelow fs d)
    (hempty₁ : EmptyBelow fs₁ d)
    (hres : copyContents levels source destination fs = .ok () fs') :
    ∃ fs₁', copyContents levels source destination fs₁ = .ok () fs₁' := by
  obtain ⟨names, fs₂, mode, hread, hentries, -, hset⟩ := copyContents_eq_ok.mp hres
  obtain ⟨hsource, rfl⟩ := names_of_readDirectory h.source hread
  have hoverlays := overlays_copyLevels levels
  have hnodup := nodup_names h.wellFormed.distinct s
  have hnames : ∀ n ∈ fs.names s, IsName n := fun n hn => h.wellFormed.name s n (mem_names.mp hn)
  have hfree : ∀ n ∈ fs.names s, fs.lookup (d ++ [n]) = none := fun n _ => hempty [n] (by simp)
  have hfree₁ : ∀ n ∈ fs.names s, fs₁.lookup (d ++ [n]) = none := fun n _ => hempty₁ [n] (by simp)
  obtain ⟨fs₂', hentries₁⟩ :=
    copyEntries_ok h h₁ hsame hoverlays hcopy hnodup hnames hfree hfree₁ hentries
  obtain ⟨h₂', -⟩ := overlaid_of_copyEntries hoverlays h₁ hnodup hnames
    (fun n hn => h₁.wellFormed.linkFree (hfree₁ n hn)) hentries₁
  have hread₁ : readDirectory fs₁ source = .ok (fs.names s) := by
    have hlist := hsame.names []
    rw [List.append_nil] at hlist
    obtain ⟨mode₁, hmode₁⟩ := isDirectoryAt_iff.mp h₁.sourceAt
    rw [readDirectory, h₁.source.find_directory hsource hmode₁, ← hlist]
  obtain ⟨mode₁, hmode₁⟩ := isDirectoryAt_iff.mp h₂'.sourceAt
  have hmode : FileSystem.mode fs₂' source = .ok mode₁ := by
    rw [FileSystem.mode, h₂'.source.find_directory hsource hmode₁]
  obtain ⟨k, e, hfind⟩ := exists_find_of_setMode hset
  obtain ⟨mode₂, hmode₂⟩ := isDirectoryAt_iff.mp h₂'.destinationAt
  have hset₁ : setMode fs₂' destination mode₁ = _ := setMode_of_find
    (h₂'.destination.find_directory (usable_of_find hfind) hmode₂) h.ne_nil
  exact ⟨_, copyContents_eq_ok.mpr ⟨_, fs₂', mode₁, hread₁, hentries₁, hmode, hset₁⟩⟩

end

/-- A directory that was opened where nothing was is empty. -/
theorem Overlaying.emptyBelow_of_opened (h : Overlaying fs source destination s d)
    (hfree : fs.lookup (d ++ [name]) = none) (ho : Opened d [name] fs fs') :
    EmptyBelow fs' (d ++ [name]) := fun r hr =>
  (ho.treeAt_below hr).trans (emptyBelow_of_lookup_eq_none h.wellFormed hfree r hr)

/-- **What was copied once can be copied again.** -/
theorem repeats_copyLevels (levels : Nat) : Repeats (copyLevels levels) := by
  induction levels with
  | zero =>
    intro fs fs₁ fs' source destination s d name _ _ _ _ _ _ _ _ hres
    exact absurd hres copyLevels_zero_ne_ok
  | succ levels ih =>
    intro fs fs₁ fs' source destination s d name h h₁ hsame hname hshort hs hfree hfree₁ hres
    rw [copyLevels_succ] at hres
    obtain ⟨_, fs₂, hcreate, hcontents⟩ := Task.bind_eq_ok.mp hres
    obtain ⟨hfits, hopened⟩ :=
      fits_of_createDirectories_child h hname hfree (Task.forPath_eq_ok.mp hcreate)
    obtain ⟨fs₂', hcreate₁, hopened₁⟩ := createDirectories_child_ok h₁ hname hfree₁ hfits
    have hs₁ : fs₁.isDirectoryAt (s ++ [name]) = true := by rw [hsame.isDirectoryAt, hs]
    obtain ⟨h₂, hkept⟩ := h.opened hname hshort hs hopened
    obtain ⟨h₂', hkept'⟩ := h₁.opened hname hshort hs₁ hopened₁
    obtain ⟨fs₁', hcontents₁⟩ := copyContents_ok h₂ h₂'
      ((hkept.symm.trans (hsame.append [name])).trans hkept') ih
      (h.emptyBelow_of_opened hfree hopened) (h₁.emptyBelow_of_opened hfree₁ hopened₁) hcontents
    refine ⟨fs₁', ?_⟩
    rw [copyLevels_succ]
    exact Task.bind_eq_ok.mpr ⟨(), fs₂', Task.forPath_eq_ok.mpr hcreate₁, hcontents₁⟩

end PluginManager.FileSystem
