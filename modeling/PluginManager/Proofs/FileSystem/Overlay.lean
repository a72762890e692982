import PluginManager.Proofs.FileSystem.Replace

/-!
# Trees laid over trees

Copying a directory over another leaves at each place what the source has there, and where the
source has nothing, what was there before.  It fails where one has a directory and the other a file,
and where a link of the source would take the place of something.

* `Tree.laidOn`: one tree laid over another.  `Tree.Agrees`: nothing in the two is in the other's
  way.
* `Overlaying`: two paths lead to directories that are apart.
* `overlaid_of_copyEntry`: **one entry is laid over what is there**, with all below it.
* `overlaid_of_copyContents`, `overlays_copyLevels`: whole directories, by induction on the levels.
* `placed_of_copyContents`: **where the destination is empty** it gets the tree of the source.
-/

namespace PluginManager

/-- The first entry cannot be laid over the second: one is a directory and the other a file, or the
first is a link. -/
def Entry.clashes (a b : Entry) : Bool :=
  a.isLink || a.isDirectory && b.isFile || a.isFile && b.isDirectory

namespace FileSystem

variable {fs fs' fs₁ : FileSystem} {source destination p : Path} {s d l : Location}
  {name : String} {names : List String} {a e : Entry} {levels mode : Nat} {r : List String}
  {top bottom : Tree} {copy : Path → Path → Task Unit}

/-! ## One tree over another -/

theorem directory_of_clashes_eq_false (h : a.clashes (.directory mode) = false) :
    ∃ mode', a = .directory mode' := by
  cases a with
  | directory mode' => exact ⟨mode', rfl⟩
  | file mode' content => exact absurd h (by simp [Entry.clashes, Entry.isFile, Entry.isDirectory])
  | link target => exact absurd h (by simp [Entry.clashes, Entry.isLink])

namespace Tree

/-- What the first tree has, and where it has nothing, what the second has. -/
def laidOn (top bottom : Tree) : Tree := fun r => (top r).or (bottom r)

/-- Where both have something, the one can be laid over the other. -/
def Agrees (top bottom : Tree) : Prop :=
  ∀ r a b, top r = some a → bottom r = some b → a.clashes b = false

/-- Directories stay directories. -/
theorem Agrees.directory (h : top.Agrees bottom) (hb : bottom r = some (.directory mode)) :
    ∃ mode', top.laidOn bottom r = some (.directory mode') := by
  cases ha : top r with
  | none => exact ⟨mode, by rw [laidOn, ha, hb, Option.none_or]⟩
  | some a =>
    obtain ⟨mode', rfl⟩ := directory_of_clashes_eq_false (h r a _ ha hb)
    exact ⟨mode', by rw [laidOn, ha, Option.some_or]⟩

theorem WellFormed.laidOn (htop : top.WellFormed) (hbottom : bottom.WellFormed)
    (h : top.Agrees bottom) : (top.laidOn bottom).WellFormed := by
  intro r n hne
  cases ha : top (r ++ [n]) with
  | some a =>
    obtain ⟨hname, mode, hmode⟩ := htop r n (by simp [ha])
    exact ⟨hname, mode, by rw [Tree.laidOn, hmode, Option.some_or]⟩
  | none =>
    rw [Tree.laidOn, ha, Option.none_or] at hne
    obtain ⟨hname, mode, hmode⟩ := hbottom r n hne
    exact ⟨hname, h.directory hmode⟩

theorem laidOn_empty (tree : Tree) : tree.laidOn .empty = tree := funext fun _ => Option.or_none

theorem agrees_leaf (h : ∀ b, bottom [] = some b → e.clashes b = false) :
    (leaf e).Agrees bottom := by
  intro r a b ha hb
  rw [leaf] at ha
  split at ha
  · rename_i hr
    obtain rfl := Option.some.inj ha
    exact h b (hr ▸ hb)
  · exact absurd ha (by simp)

end Tree

/-- Over a place with nothing below it a tree is laid as it is. -/
theorem EmptyBelow.laidOn_eq (h : EmptyBelow fs d) (htop : top [] ≠ none) :
    top.laidOn (fs.treeAt d) = top := by
  funext r
  by_cases hr : r = []
  · obtain ⟨e, he⟩ := Option.ne_none_iff_exists'.mp htop
    rw [hr, Tree.laidOn, he, Option.some_or]
  · rw [Tree.laidOn, treeAt, h r hr, Option.or_none]

theorem treeAt_cons (fs : FileSystem) (l : Location) (name : String) (r : List String) :
    fs.treeAt l (name :: r) = fs.treeAt (l ++ [name]) r := by
  rw [treeAt, treeAt, List.append_cons]

/-- A directory can be laid over a directory. -/
theorem clashes_eq_false_of_directories {a b : Entry} (hs : fs.isDirectoryAt s = true)
    (hd : fs.lookup d = none ∨ fs.isDirectoryAt d = true) (ha : fs.treeAt s [] = some a)
    (hb : fs.treeAt d [] = some b) : a.clashes b = false := by
  rw [treeAt, List.append_nil] at ha hb
  obtain ⟨mode, rfl⟩ := exists_mode_of_isDirectory (isDirectory_of_lookup hs ha)
  rcases hd with hnone | hd
  · exact absurd (hnone.symm.trans hb) (by simp)
  · obtain ⟨mode', rfl⟩ := exists_mode_of_isDirectory (isDirectory_of_lookup hd hb)
    rfl

/-! ## Two directories -/

/-- No link is at the location or below it. -/
def LinkFree (fs : FileSystem) (l : Location) : Prop :=
  ∀ r target, fs.lookup (l ++ r) ≠ some (.link target)

theorem LinkFree.append (h : LinkFree fs l) (r : List String) : LinkFree fs (l ++ r) := by
  intro r' target
  rw [List.append_assoc]
  exact h (r ++ r') target

theorem LinkFree.not_link (h : LinkFree fs l) (target : Path) :
    fs.lookup l ≠ some (.link target) := by
  have hroot := h [] target
  rwa [List.append_nil] at hroot

/-- The tree at `s` was laid over that at `d`, nothing being in its way, and nothing else is
different. -/
structure Overlaid (s d : Location) (fs fs' : FileSystem) : Prop where
  placed : Placed d ((fs.treeAt s).laidOn (fs.treeAt d)) fs fs'
  agrees : (fs.treeAt s).Agrees (fs.treeAt d)

namespace Overlaid

/-- Over a tree without links, whatever led on leads on. -/
theorem guides (h : Overlaid s d fs fs') (hfree : LinkFree fs d) : Guides fs fs' := by
  refine ⟨fun l hl => ?_, fun l target hl => ?_, h.placed.changes.workingDirectory⟩
  · by_cases hp : d <+: l
    · obtain ⟨r, rfl⟩ := hp
      obtain ⟨mode, hmode⟩ := isDirectoryAt_iff.mp hl
      obtain ⟨mode', hmode'⟩ := h.agrees.directory hmode
      exact isDirectoryAt_of_lookup ((h.placed.lookup r).trans hmode')
    · rwa [isDirectoryAt, h.placed.changes.lookup l hp]
  · rw [h.placed.changes.lookup l, hl]
    rintro ⟨r, rfl⟩
    exact hfree r target hl

theorem wellFormed (h : Overlaid s d fs fs') (hwf : fs.WellFormed) (hd : IsPlace fs d) :
    fs'.WellFormed := by
  obtain ⟨init, name, rfl, hname, hdir⟩ := hd
  exact h.placed.wellFormed hwf ((hwf.treeAt s).laidOn (hwf.treeAt (init ++ [name])) h.agrees)
    fun _ => ⟨hname, hdir⟩

end Overlaid

theorem Opened.treeAt_below (h : Opened d [name] fs fs') (hr : r ≠ []) :
    fs'.treeAt (d ++ [name]) r = fs.treeAt (d ++ [name]) r := by
  rw [treeAt, treeAt, List.append_assoc]
  exact h.lookup_append hr

/-- The paths lead to directories, neither of which is in the other. -/
structure Overlaying (fs : FileSystem) (source destination : Path) (s d : Location) : Prop where
  wellFormed : fs.WellFormed
  source : Route fs (fun _ => True) source s
  sourceAt : fs.isDirectoryAt s = true
  destination : Route fs (fun _ => True) destination d
  destinationAt : fs.isDirectoryAt d = true
  apart : Apart s d

namespace Overlaying

theorem of_guides (h : Overlaying fs source destination s d) (hg : Guides fs fs')
    (hwf : fs'.WellFormed) : Overlaying fs' source destination s d :=
  ⟨hwf, h.source.of_guides hg h.sourceAt, hg.directory s h.sourceAt,
    h.destination.of_guides hg h.destinationAt, hg.directory d h.destinationAt, h.apart⟩

theorem of_overlaid (h : Overlaying fs source destination s d) (hname : IsName name)
    (hfree : LinkFree fs (d ++ [name])) (ho : Overlaid l (d ++ [name]) fs fs') :
    Overlaying fs' source destination s d :=
  h.of_guides (ho.guides hfree)
    (ho.wellFormed h.wellFormed ⟨d, name, rfl, hname, h.destinationAt⟩)

theorem ne_nil (h : Overlaying fs source destination s d) : d ≠ [] := by
  rintro rfl
  exact h.apart.2 List.nil_prefix

theorem isPlace (h : Overlaying fs source destination s d) : IsPlace fs d := by
  obtain ⟨init, name, rfl⟩ := (List.eq_nil_or_concat d).resolve_left h.ne_nil
  have hd := lookup_ne_none h.destinationAt
  rw [List.concat_eq_append] at hd ⊢
  exact ⟨init, name, rfl, h.wellFormed.name init name hd, h.wellFormed.parent init name hd⟩

/-- Directories of the same name in both. -/
theorem child (h : Overlaying fs source destination s d) (hname : IsName name)
    (hshort : name.utf8ByteSize ≤ nameLimit) (hs : fs.isDirectoryAt (s ++ [name]) = true)
    (hd : fs.isDirectoryAt (d ++ [name]) = true) :
    Overlaying fs (source.child name) (destination.child name) (s ++ [name]) (d ++ [name]) :=
  ⟨h.wellFormed, h.source.child h.sourceAt hname hshort hs trivial, hs,
    h.destination.child h.destinationAt hname hshort hd trivial, hd,
    h.apart.append_append [name] [name]⟩

/-- Directories of the same name, where that in the destination was opened. -/
theorem opened (h : Overlaying fs source destination s d) (hname : IsName name)
    (hshort : name.utf8ByteSize ≤ nameLimit) (hs : fs.isDirectoryAt (s ++ [name]) = true)
    (ho : Opened d [name] fs fs') :
    Overlaying fs' (source.child name) (destination.child name) (s ++ [name]) (d ++ [name]) ∧
      SameTree (s ++ [name]) fs fs' := by
  have hguides := ho.changes.guides fun _ hl => hl.1
  have hwithin := ho.within (List.prefix_refl _) h.destinationAt
  refine ⟨(h.of_guides hguides (ho.wellFormed h.wellFormed h.destinationAt (by simp [hname]))).child
    hname hshort (hguides.directory _ hs) (ho.opens [name] (List.prefix_refl _)), ?_⟩
  exact .of_changes (fun r hp => ((h.apart.append_append [name] [name]).append r).2 hp) hwithin

end Overlaying

/-- What copying a directory is to do to a directory, or to nothing. -/
def Overlays (copy : Path → Path → Task Unit) : Prop :=
  ∀ ⦃fs fs' source destination s d name⦄, Overlaying fs source destination s d → IsName name →
    name.utf8ByteSize ≤ nameLimit → fs.isDirectoryAt (s ++ [name]) = true →
    LinkFree fs (d ++ [name]) →
    copy (source.child name) (destination.child name) fs = .ok () fs' →
    Overlaid (s ++ [name]) (d ++ [name]) fs fs'

/-! ## One entry -/

section Entry

variable (h : Overlaying fs source destination s d) (hname : IsName name)

include h hname

/-- A link is put where nothing was. -/
theorem overlaid_of_makeLink {target : Path} (he : fs.lookup (s ++ [name]) = some (.link target))
    (hlink : makeLink fs target (destination.child name) = .ok fs') :
    Overlaid (s ++ [name]) (d ++ [name]) fs fs' := by
  obtain ⟨spot, hres, -, hnone, rfl⟩ := exists_of_makeLink hlink
  have hfits := fits_of_resolve_child h.destination h.destinationAt hname hres
  have hspot := resolve_child h.destination h.destinationAt hname hfits (.inl rfl)
  obtain rfl := Except.ok.inj (hspot.symm.trans hres)
  have hempty := emptyBelow_of_lookup_eq_none h.wellFormed hnone
  constructor
  · rw [h.wellFormed.treeAt_eq_leaf he rfl, hempty.laidOn_eq (by simp [Tree.leaf])]
    exact placed_insert append_singleton_ne_nil hempty _
  · rw [h.wellFormed.treeAt_eq_empty hnone]
    exact fun r a b _ hb => absurd hb (by simp [Tree.empty])

variable (hfree : LinkFree fs (d ++ [name]))

include hfree

/-- A file is put over a file, or where nothing was. -/
theorem overlaid_of_copyFile {content : Bytes} (hfits : Fits source [name])
    (he : fs.lookup (s ++ [name]) = some (.file mode content))
    (hcopy : copyFile fs (source.child name) (destination.child name) = .ok fs₁)
    (hmode : setMode fs₁ (destination.child name) mode = .ok fs') :
    Overlaid (s ++ [name]) (d ++ [name]) fs fs' := by
  have hfind := find_of_child h.source h.sourceAt hname hfits he (.inr rfl : true = false ∨ _)
  obtain ⟨k, mode', content', l, existing, hfind', hwritable, rfl⟩ := exists_of_copyFile hcopy
  obtain ⟨rfl, hentry⟩ := Prod.mk.inj (Except.ok.inj (hfind.symm.trans hfind'))
  obtain ⟨rfl, rfl⟩ := Entry.file.inj hentry
  obtain ⟨-, rfl, hfile⟩ := location_of_writable_child h.destination h.destinationAt hname
    (fun _ => hfree.not_link) hwritable
  rw [if_neg (h.apart.append_append [name] [name]).ne] at hmode
  have hplace : IsPlace fs (d ++ [name]) := ⟨d, name, rfl, hname, h.destinationAt⟩
  have hempty : EmptyBelow fs (d ++ [name]) := fun r hr =>
    h.wellFormed.lookup_append_eq_none hr (isDirectoryAt_eq_false_of_file hfile)
  have hput := placed_setContent append_singleton_ne_nil hempty mode content
  have h₁ := h.of_guides (guides_setContent hplace hfile mode content)
    (wellFormed_setContent hplace hfile h.wellFormed mode content)
  have he₁ := hput.lookup []
  rw [List.append_nil] at he₁
  obtain rfl := eq_of_setMode_child h₁.destination h₁.destinationAt hname he₁ rfl hmode
  constructor
  · rw [h.wellFormed.treeAt_eq_leaf he rfl, hempty.laidOn_eq (by simp [Tree.leaf])]
    refine hput.trans (placed_insert append_singleton_ne_nil (fun r hr => ?_) _)
    rw [hput.lookup, Tree.leaf, if_neg hr]
  · rw [h.wellFormed.treeAt_eq_leaf he rfl]
    refine Tree.agrees_leaf fun b hb => ?_
    rw [treeAt, List.append_nil] at hb
    have hb' := hfile b hb
    cases b with
    | file _ _ => rfl
    | directory _ => exact absurd hb' (by simp [Entry.isFile])
    | link _ => exact absurd hb' (by simp [Entry.isFile])

/-- **One entry is laid over what is there**, with all below it. -/
theorem overlaid_of_copyEntry (hcopy : Overlays copy)
    (hres : copyEntry copy (source.child name) (destination.child name) fs = .ok () fs') :
    Overlaid (s ++ [name]) (d ++ [name]) fs fs' := by
  obtain ⟨l, e, hfind, hdo⟩ := copyEntry_eq_ok.mp hres
  obtain ⟨hfits, rfl, he⟩ := lookup_of_find_child h.source h.sourceAt hname hfind
  cases e with
  | link target => exact overlaid_of_makeLink h hname he hdo
  | file mode content =>
    obtain ⟨fs₁, hfile, hmode⟩ := hdo
    exact overlaid_of_copyFile h hname hfree hfits he hfile hmode
  | directory mode =>
    obtain ⟨fs₁, htree, hmode⟩ := hdo
    have ho := hcopy h hname (hfits.short name (by simp)) (isDirectoryAt_of_lookup he) hfree htree
    have h₁ := h.of_overlaid hname hfree ho
    have he₁ := ho.placed.lookup []
    rw [List.append_nil, Tree.laidOn, treeAt, List.append_nil, he, Option.some_or] at he₁
    obtain rfl := eq_of_setMode_child h₁.destination h₁.destinationAt hname he₁ rfl hmode
    have hsame := placed_insert_same append_singleton_ne_nil he₁
    rw [ho.placed.tree] at hsame
    exact ⟨ho.placed.trans hsame, ho.agrees⟩

end Entry

/-! ## Whole directories -/

/-- Entries of different names are laid side by side. -/
theorem overlaid_of_copyEntries (hcopy : Overlays copy) (h : Overlaying fs source destination s d)
    (hnodup : names.Nodup) (hnames : ∀ n ∈ names, IsName n)
    (hfree : ∀ n ∈ names, LinkFree fs (d ++ [n]))
    (hres : (names.forM fun name =>
      copyEntry copy (source.child name) (destination.child name) : Task Unit) fs = .ok () fs') :
    Overlaying fs' source destination s d ∧
      ChangesOnly (fun l => ∃ n ∈ names, d ++ [n] <+: l) fs fs' ∧
      ∀ n ∈ names, fs'.treeAt (d ++ [n]) = (fs.treeAt (s ++ [n])).laidOn (fs.treeAt (d ++ [n])) ∧
        (fs.treeAt (s ++ [n])).Agrees (fs.treeAt (d ++ [n])) := by
  induction names generalizing fs with
  | nil =>
    obtain rfl := Task.forM_nil_eq_ok.mp hres
    exact ⟨h, .refl _ fs, fun _ hn => absurd hn (by simp)⟩
  | cons name rest ih =>
    obtain ⟨fs₁, hfirst, hrest⟩ := Task.forM_cons_eq_ok.mp hres
    obtain ⟨hnot, hnodup'⟩ := List.nodup_cons.mp hnodup
    have hname := hnames name List.mem_cons_self
    have hhere := hfree name List.mem_cons_self
    have ho := overlaid_of_copyEntry h hname hhere hcopy hfirst
    -- What the other names are to be laid over, and what is laid there, is as it was.
    have hsource : ∀ n, fs₁.treeAt (s ++ [n]) = fs.treeAt (s ++ [n]) := fun n => funext fun r =>
      ho.placed.changes.lookup _ fun hp =>
        ((h.apart.append_append [n] [name]).append r).2 hp
    have hother : ∀ n ∈ rest, fs₁.treeAt (d ++ [n]) = fs.treeAt (d ++ [n]) :=
      fun n hn => funext fun r =>
        ho.placed.changes.lookup _ fun hp => hnot (eq_of_prefix_concat hp ▸ hn)
    obtain ⟨h', hchanges, htrees⟩ := ih (h.of_overlaid hname hhere ho) hnodup'
      (fun n hn => hnames n (List.mem_cons_of_mem name hn))
      (fun n hn r target htarget => hfree n (List.mem_cons_of_mem name hn) r target
        ((congrFun (hother n hn) r).symm.trans htarget)) hrest
    refine ⟨h', (ho.placed.changes.mono fun l hl => ?_).trans (hchanges.mono fun l hl => ?_),
      fun n hn => ?_⟩
    · exact ⟨name, List.mem_cons_self, hl⟩
    · obtain ⟨n, hn, hp⟩ := hl
      exact ⟨n, List.mem_cons_of_mem name hn, hp⟩
    · rcases List.mem_cons.mp hn with rfl | hn
      · refine ⟨?_, ho.agrees⟩
        rw [← ho.placed.tree]
        funext r
        refine hchanges.lookup _ ?_
        rintro ⟨m, hm, hp⟩
        exact hnot (eq_of_prefix_concat hp ▸ hm)
      · rw [← hsource n, ← hother n hn]
        exact htrees n hn

/-- **The contents of a directory are laid over those of another**, which gets its mode. -/
theorem overlaid_of_copyContents (hcopy : Overlays (copyLevels levels))
    (h : Overlaying fs source destination s d) (hfree : LinkFree fs d)
    (hres : copyContents levels source destination fs = .ok () fs') : Overlaid s d fs fs' := by
  obtain ⟨names, fs₁, mode, hread, hentries, hmode, hset⟩ := copyContents_eq_ok.mp hres
  obtain ⟨-, rfl⟩ := names_of_readDirectory h.source hread
  obtain ⟨h₁, hchanges, htrees⟩ :=
    overlaid_of_copyEntries hcopy h (nodup_names h.wellFormed.distinct s)
      (fun n hn => h.wellFormed.name s n (mem_names.mp hn)) (fun n _ => hfree.append [n]) hentries
  have hbelow : ChangesOnly (Below d) fs fs₁ :=
    hchanges.mono fun l ⟨_, _, hp⟩ => below_of_prefix_concat hp
  have hs : fs.lookup s = some (.directory mode) := by
    rw [← hbelow.lookup s fun hb => h.apart.2 hb.1]
    exact lookup_of_mode h₁.source h₁.sourceAt hmode
  obtain rfl := eq_of_setMode h₁.destination h₁.destinationAt h.ne_nil hset
  have hput : Placed d _ fs₁ (fs₁.insert d (.directory mode)) := placed_insert_above h.ne_nil _
  have hmissing : ∀ n, n ∉ fs.names s → fs.treeAt (s ++ [n]) = .empty := fun n hn =>
    h.wellFormed.treeAt_eq_empty (by_contra fun hne => hn (mem_names.mpr hne))
  refine ⟨⟨(hbelow.mono fun _ hb => hb.1).trans hput.changes, hput.tree.trans ?_⟩, ?_⟩
  · funext r
    cases r with
    | nil => rw [if_pos rfl, Tree.laidOn, treeAt, List.append_nil, hs, Option.some_or]
    | cons n r =>
      rw [if_neg (by simp), Tree.laidOn, treeAt_cons, treeAt_cons, treeAt_cons]
      by_cases hn : n ∈ fs.names s
      · exact congrFun (htrees n hn).1 r
      · rw [hmissing n hn, Tree.empty, Option.none_or]
        refine hchanges.lookup _ ?_
        rintro ⟨m, hm, hp⟩
        exact hn (eq_of_prefix_concat hp ▸ hm)
  · intro r a b ha hb
    cases r with
    | nil => exact clashes_eq_false_of_directories h.sourceAt (.inr h.destinationAt) ha hb
    | cons n r =>
      rw [treeAt_cons] at ha hb
      by_cases hn : n ∈ fs.names s
      · exact (htrees n hn).2 r a b ha hb
      · rw [hmissing n hn] at ha
        exact absurd ha (by simp [Tree.empty])

theorem LinkFree.of_made (h : LinkFree fs d) (hd : fs₁.isDirectoryAt d = true)
    (hbelow : ∀ r, r ≠ [] → fs₁.treeAt d r = fs.treeAt d r) : LinkFree fs₁ d := by
  intro r target htarget
  by_cases hr : r = []
  · rw [hr, List.append_nil] at htarget
    exact absurd (isDirectory_of_lookup hd htarget) Bool.false_ne_true
  · exact h r target ((hbelow r hr).symm.trans htarget)

/-- Making the directory first makes no difference to what is laid over what. -/
theorem Overlaid.of_made (h : Overlaid s d fs₁ fs') (hd : fs.isDirectoryAt s = true)
    (hs : fs₁.treeAt s = fs.treeAt s) (hbelow : ∀ r, r ≠ [] → fs₁.treeAt d r = fs.treeAt d r)
    (hplace : fs.lookup d = none ∨ fs.isDirectoryAt d = true) :
    fs'.treeAt d = (fs.treeAt s).laidOn (fs.treeAt d) ∧ (fs.treeAt s).Agrees (fs.treeAt d) := by
  obtain ⟨mode, hmode⟩ := isDirectoryAt_iff.mp hd
  constructor
  · rw [h.placed.tree, hs]
    funext r
    by_cases hr : r = []
    · rw [hr, Tree.laidOn, Tree.laidOn, treeAt, List.append_nil, hmode, Option.some_or,
        Option.some_or]
    · rw [Tree.laidOn, Tree.laidOn, hbelow r hr]
  · intro r a b ha hb
    by_cases hr : r = []
    · subst hr
      exact clashes_eq_false_of_directories hd hplace ha hb
    · rw [← hs] at ha
      rw [← hbelow r hr] at hb
      exact h.agrees r a b ha hb

/-- **Whole trees are laid over others**, as far as the levels go. -/
theorem overlays_copyLevels (levels : Nat) : Overlays (copyLevels levels) := by
  induction levels with
  | zero =>
    intro fs fs' source destination s d name _ _ _ _ _ hres
    exact absurd hres copyLevels_zero_ne_ok
  | succ levels ih =>
    intro fs fs' source destination s d name h hname hshort hs hfree hres
    rw [copyLevels_succ] at hres
    obtain ⟨_, fs₁, hcreate, hcontents⟩ := Task.bind_eq_ok.mp hres
    have hcreate := Task.forPath_eq_ok.mp hcreate
    rw [Path.child_eq_descend] at hcreate
    obtain ⟨hpass, -, hopened⟩ := opened_of_createDirectories h.destination h.destinationAt
      (by simp [hname]) (by simp) (clear_singleton h.destinationAt name).noLinks hfree.not_link
      hcreate
    have hwithin := hopened.within (List.prefix_refl _) h.destinationAt
    obtain ⟨h₁, hsame⟩ := h.opened hname hshort hs hopened
    have hbelow := fun r (hr : r ≠ []) => hopened.treeAt_below hr
    have ho := overlaid_of_copyContents ih h₁ (hfree.of_made h₁.destinationAt hbelow) hcontents
    obtain ⟨htree, hagrees⟩ := ho.of_made hs hsame.treeAt hbelow (hpass [name] (List.prefix_refl _))
    exact ⟨⟨hwithin.trans ho.placed.changes, htree⟩, hagrees⟩

/-! ## Empty places -/

theorem WellFormed.linkFree (h : fs.WellFormed) (hl : fs.lookup l = none) : LinkFree fs l := by
  intro r target htarget
  exact absurd ((congrFun (h.treeAt_eq_empty hl) r).symm.trans htarget) (by simp [Tree.empty])

theorem EmptyBelow.linkFree (h : EmptyBelow fs d) (hd : fs.isDirectoryAt d = true) :
    LinkFree fs d := by
  intro r target htarget
  by_cases hr : r = []
  · rw [hr, List.append_nil] at htarget
    exact absurd (isDirectory_of_lookup hd htarget) Bool.false_ne_true
  · exact absurd ((h r hr).symm.trans htarget) (by simp)

/-- What is laid where nothing was is there as it is. -/
theorem Overlaid.placed_of_free (h : Overlaid s d fs fs') (hwf : fs.WellFormed)
    (hfree : fs.lookup d = none) : Placed d (fs.treeAt s) fs fs' := by
  have hput := h.placed
  rwa [hwf.treeAt_eq_empty hfree, Tree.laidOn_empty] at hput

/-- **Into an empty directory** its contents are copied as they are. -/
theorem placed_of_copyContents (h : Overlaying fs source destination s d) (hempty : EmptyBelow fs d)
    (hres : copyContents levels source destination fs = .ok () fs') :
    Placed d (fs.treeAt s) fs fs' := by
  have hput := (overlaid_of_copyContents (overlays_copyLevels levels) h
    (hempty.linkFree h.destinationAt) hres).placed
  rwa [hempty.laidOn_eq] at hput
  rw [treeAt, List.append_nil]
  exact lookup_ne_none h.sourceAt

end FileSystem

end PluginManager
