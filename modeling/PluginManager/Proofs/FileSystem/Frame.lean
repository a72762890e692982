import Mathlib.Data.List.Induction
import Mathlib.Data.List.Nodup
import PluginManager.FileSystem.Basic
import PluginManager.Proofs.Path.Steps

/-!
# What a change leaves alone

Every operation on a file system comes down to entries that are put in place or taken away.

* `FileSystem.WellFormed`: entries have names, stand in directories, and stand there once.
* `mem_names`: the enumeration of a directory is what can be looked up in it.
* `FileSystem.ChangesOnly`: everything away from some locations is as it was, and is listed in the
  same order.
* `changesOnly_insert`, `changesOnly_erase`, `changesOnly_eraseBelow`: the changes there are.
* `FileSystem.Placed`: a tree was put at a location.  `Placed.wellFormed`: when that leaves a
  well-formed file system.
-/

namespace PluginManager.FileSystem

variable {fs fs' fs'' : FileSystem} {l k r : Location} {name : String} {e : Entry}

/-! ## Locations -/

theorem isWithin_iff : isWithin l k = true ↔ l <+: k := List.isPrefixOf_iff_prefix

/-- Neither location lies below the other. -/
def Apart (l k : Location) : Prop := ¬ l <+: k ∧ ¬ k <+: l

theorem Apart.symm (h : Apart l k) : Apart k l := ⟨h.2, h.1⟩

/-- What lies within one of two locations that are apart is apart from the other. -/
theorem Apart.append (h : Apart l k) (r : Location) : Apart (l ++ r) k := by
  refine ⟨fun hlk => h.1 ((List.prefix_append l r).trans hlk), fun hkl => ?_⟩
  rcases List.prefix_or_prefix_of_prefix hkl (List.prefix_append l r) with hp | hp
  · exact h.2 hp
  · exact h.1 hp

theorem Apart.append_append (h : Apart l k) (r r' : Location) : Apart (l ++ r) (k ++ r') :=
  ((h.append r).symm.append r').symm

theorem Apart.ne (h : Apart l k) : l ≠ k := by
  rintro rfl
  exact h.1 (List.prefix_refl l)

theorem append_singleton_ne_nil : l ++ [name] ≠ [] := by simp

/-! ## Entries -/

theorem lookup_of_ne_nil (h : l ≠ []) : fs.lookup l = fs.entries.lookup l := by
  cases l with
  | nil => exact absurd rfl h
  | cons name rest => rfl

theorem isDirectoryAt_iff :
    fs.isDirectoryAt l = true ↔ ∃ mode, fs.lookup l = some (.directory mode) := by
  rw [isDirectoryAt]
  cases fs.lookup l with
  | none => simp
  | some e => cases e <;> simp [Entry.isDirectory]

theorem isDirectoryAt_of_lookup {mode : Nat} (h : fs.lookup l = some (.directory mode)) :
    fs.isDirectoryAt l = true := isDirectoryAt_iff.mpr ⟨mode, h⟩

theorem isDirectory_of_lookup (h : fs.isDirectoryAt l = true) (he : fs.lookup l = some e) :
    e.isDirectory = true := by
  rw [isDirectoryAt, he] at h
  exact h

theorem exists_mode_of_isDirectory (h : e.isDirectory = true) : ∃ mode, e = .directory mode := by
  cases e with
  | directory mode => exact ⟨mode, rfl⟩
  | file mode content => exact absurd h (by simp [Entry.isDirectory])
  | link target => exact absurd h (by simp [Entry.isDirectory])

theorem lookup_ne_none (h : fs.isDirectoryAt l = true) : fs.lookup l ≠ none := by
  obtain ⟨mode, hmode⟩ := isDirectoryAt_iff.mp h
  simp [hmode]

theorem childName?_eq_some_iff : childName? l k = some name ↔ k = l ++ [name] := by
  rw [childName?]
  constructor
  · intro h
    split at h
    · rename_i hl
      obtain ⟨init, rfl⟩ := List.getLast?_eq_some_iff.mp h
      rw [List.dropLast_concat] at hl
      rw [hl]
    · exact absurd h (by simp)
  · rintro rfl
    simp

theorem names_eq (fs : FileSystem) (l : Location) :
    fs.names l = ((fs.entries.map Prod.fst).filterMap (childName? l)).reverse := by
  rw [names, List.filterMap_map]
  rfl

theorem mem_keys (hl : l ≠ []) : l ∈ fs.entries.map Prod.fst ↔ fs.lookup l ≠ none := by
  rw [lookup_of_ne_nil hl, ne_eq, List.lookup_eq_none_iff]
  constructor
  · intro hmem hnone
    obtain ⟨x, hx, rfl⟩ := List.mem_map.mp hmem
    exact absurd (hnone x hx) (by simp)
  · intro h
    simp only [not_forall] at h
    obtain ⟨x, hx, hxl⟩ := h
    have hkey : l = x.1 := by simpa using hxl
    exact hkey ▸ List.mem_map_of_mem hx

/-- **A directory lists** what can be looked up in it. -/
theorem mem_names : name ∈ fs.names l ↔ fs.lookup (l ++ [name]) ≠ none := by
  rw [names_eq, List.mem_reverse, List.mem_filterMap, ← mem_keys append_singleton_ne_nil]
  constructor
  · rintro ⟨k, hk, hname⟩
    rwa [← childName?_eq_some_iff.mp hname]
  · intro hk
    exact ⟨l ++ [name], hk, childName?_eq_some_iff.mpr rfl⟩

theorem nodup_names (h : (fs.entries.map Prod.fst).Nodup) (l : Location) : (fs.names l).Nodup := by
  rw [names_eq, List.nodup_reverse]
  apply h.filterMap
  intro k k' name hk hk'
  rw [childName?_eq_some_iff.mp hk, childName?_eq_some_iff.mp hk']

/-- Directories with the same names list the same. -/
theorem names_perm {l' : Location} (h : (fs.entries.map Prod.fst).Nodup)
    (h' : (fs'.entries.map Prod.fst).Nodup)
    (hsame : ∀ name, fs'.lookup (l' ++ [name]) = fs.lookup (l ++ [name])) :
    (fs'.names l').Perm (fs.names l) := by
  refine (List.perm_ext_iff_of_nodup (nodup_names h' l') (nodup_names h l)).mpr fun name => ?_
  rw [mem_names, mem_names, hsame]

/-! ## Well-formed file systems -/

/-- Entries have names, stand in directories, and no location has two of them. -/
structure WellFormed (fs : FileSystem) : Prop where
  name : ∀ l n, fs.lookup (l ++ [n]) ≠ none → IsName n
  parent : ∀ l n, fs.lookup (l ++ [n]) ≠ none → fs.isDirectoryAt l = true
  distinct : (fs.entries.map Prod.fst).Nodup

/-- Well-formedness, key by key. -/
theorem wellFormed_of_keys
    (hkeys : ∀ k ∈ fs.entries.map Prod.fst, fs.isDirectoryAt k.dropLast = true ∧
      ∀ n ∈ k.getLast?, IsName n)
    (hdistinct : (fs.entries.map Prod.fst).Nodup) : fs.WellFormed := by
  refine ⟨fun l n hl => ?_, fun l n hl => ?_, hdistinct⟩
  · exact (hkeys _ ((mem_keys append_singleton_ne_nil).mpr hl)).2 n (by simp)
  · have hparent := (hkeys _ ((mem_keys append_singleton_ne_nil).mpr hl)).1
    rwa [List.dropLast_concat] at hparent

theorem WellFormed.isDirectoryAt (h : fs.WellFormed) (hr : r ≠ [])
    (hl : fs.lookup (l ++ r) ≠ none) : fs.isDirectoryAt l = true := by
  induction r using List.reverseRecOn with
  | nil => exact absurd rfl hr
  | append_singleton r n ih =>
    rw [← List.append_assoc] at hl
    have hparent := h.parent _ _ hl
    by_cases hr' : r = []
    · rwa [hr', List.append_nil] at hparent
    · obtain ⟨mode, hmode⟩ := isDirectoryAt_iff.mp hparent
      exact ih hr' (by rw [hmode]; simp)

theorem WellFormed.lookup_append_eq_none (h : fs.WellFormed) (hr : r ≠ [])
    (hl : fs.isDirectoryAt l = false) : fs.lookup (l ++ r) = none := by
  by_contra hne
  rw [h.isDirectoryAt hr hne] at hl
  exact absurd hl (by decide)

theorem WellFormed.isName (h : fs.WellFormed) (hl : fs.lookup l ≠ none) : ∀ n ∈ l, IsName n := by
  intro n hn
  obtain ⟨before, after, rfl⟩ := List.append_of_mem hn
  rw [List.append_cons] at hl
  by_cases ha : after = []
  · rw [ha, List.append_nil] at hl
    exact h.name _ _ hl
  · obtain ⟨mode, hmode⟩ := isDirectoryAt_iff.mp (h.isDirectoryAt ha hl)
    exact h.name before n (by rw [hmode]; simp)

/-! ## Changes -/

/-- The two file systems differ at locations in `P` at most. -/
structure ChangesOnly (P : Location → Prop) (fs fs' : FileSystem) : Prop where
  lookup : ∀ l, ¬ P l → fs'.lookup l = fs.lookup l
  names : ∀ l, (∀ name, ¬ P (l ++ [name])) → fs'.names l = fs.names l
  workingDirectory : fs'.workingDirectory = fs.workingDirectory
  distinct : (fs.entries.map Prod.fst).Nodup → (fs'.entries.map Prod.fst).Nodup

namespace ChangesOnly

variable {P P' : Location → Prop}

theorem refl (P : Location → Prop) (fs : FileSystem) : ChangesOnly P fs fs :=
  ⟨fun _ _ => rfl, fun _ _ => rfl, rfl, id⟩

theorem trans (h : ChangesOnly P fs fs') (h' : ChangesOnly P fs' fs'') : ChangesOnly P fs fs'' :=
  ⟨fun l hl => (h'.lookup l hl).trans (h.lookup l hl),
    fun l hl => (h'.names l hl).trans (h.names l hl),
    h'.workingDirectory.trans h.workingDirectory, h'.distinct ∘ h.distinct⟩

theorem mono (h : ChangesOnly P fs fs') (hP : ∀ l, P l → P' l) : ChangesOnly P' fs fs' :=
  ⟨fun l hl => h.lookup l (mt (hP l) hl), fun l hl => h.names l fun name => mt (hP _) (hl name),
    h.workingDirectory, h.distinct⟩

end ChangesOnly

/-! ## Putting in place -/

theorem keys_replaceEntry (l : Location) (e : Entry) (es : List (Location × Entry)) :
    (replaceEntry l e es).map Prod.fst =
      if l ∈ es.map Prod.fst then es.map Prod.fst else es.map Prod.fst ++ [l] := by
  induction es with
  | nil => rfl
  | cons x rest ih =>
    obtain ⟨k, y⟩ := x
    rw [replaceEntry]
    by_cases hk : k = l
    · simp [hk]
    · rw [if_neg hk, List.map_cons, ih]
      by_cases hl : l ∈ rest.map Prod.fst
      · simp [hl]
      · rw [if_neg hl, if_neg]
        · rfl
        · rw [List.map_cons, List.mem_cons, not_or]
          exact ⟨Ne.symm hk, hl⟩

theorem nodup_keys_replaceEntry {es : List (Location × Entry)} (h : (es.map Prod.fst).Nodup) :
    ((replaceEntry l e es).map Prod.fst).Nodup := by
  rw [keys_replaceEntry]
  split
  · exact h
  · rename_i hl
    rw [List.nodup_append_comm]
    exact List.nodup_cons.mpr ⟨hl, h⟩

theorem changesOnly_insert (fs : FileSystem) (hl : l ≠ []) (e : Entry) :
    ChangesOnly (· = l) fs (fs.insert l e) := by
  refine ⟨fun k hk => ?_, fun k hk => ?_, rfl, fun h => nodup_keys_replaceEntry h⟩
  · rw [lookup_insert fs hl, if_neg hk]
  · rw [names_eq, names_eq]
    show (List.filterMap _ ((replaceEntry l e fs.entries).map Prod.fst)).reverse = _
    rw [keys_replaceEntry]
    split
    · rfl
    · have hnone : childName? k l = none := by
        cases hname : childName? k l with
        | none => rfl
        | some name => exact absurd (childName?_eq_some_iff.mp hname).symm (hk name)
      rw [List.filterMap_append]
      simp [hnone]

@[simp] theorem lookup_touchAt (fs : FileSystem) (l : Location) (time : Int) (k : Location) :
    (fs.touchAt l time).lookup k = fs.lookup k := by
  cases k <;> rfl

theorem changesOnly_touchAt (fs : FileSystem) (l : Location) (time : Int) (P : Location → Prop) :
    ChangesOnly P fs (fs.touchAt l time) :=
  ⟨fun k _ => lookup_touchAt fs l time k, fun _ _ => rfl, rfl, id⟩

/-! ## Taking away -/

theorem keys_filter (p : Location → Bool) (es : List (Location × Entry)) :
    (es.filter fun x => p x.1).map Prod.fst = (es.map Prod.fst).filter p := by
  rw [List.filter_map]
  rfl

theorem changesOnly_filter (p : Location → Bool) {P : Location → Prop}
    (hentries : fs'.entries = fs.entries.filter fun x => p x.1) (hp : ∀ l, p l = false → P l)
    (hwd : fs'.workingDirectory = fs.workingDirectory) : ChangesOnly P fs fs' := by
  have hkeep : ∀ l, ¬ P l → p l = true := by
    intro l hl
    cases hpl : p l with
    | true => rfl
    | false => exact absurd (hp l hpl) hl
  refine ⟨fun l hl => ?_, fun l hl => ?_, hwd, fun h => ?_⟩
  · by_cases hnil : l = []
    · rw [hnil, lookup_nil, lookup_nil]
    · rw [lookup_of_ne_nil hnil, lookup_of_ne_nil hnil, hentries, lookup_filter_key,
        if_pos (hkeep l hl)]
  · rw [names_eq, names_eq, hentries, keys_filter, List.filterMap_filter]
    congr 1
    apply List.filterMap_congr
    intro k _
    split
    · rfl
    · rename_i hk
      cases hname : childName? l k with
      | none => rfl
      | some name =>
        obtain rfl := childName?_eq_some_iff.mp hname
        exact absurd (hkeep _ (hl name)) hk
  · rw [hentries, keys_filter]
    exact h.filter _

theorem changesOnly_erase (fs : FileSystem) (l : Location) :
    ChangesOnly (l <+: ·) fs (fs.erase l) :=
  changesOnly_filter (fun k => !isWithin l k) rfl
    (fun k hk => isWithin_iff.mp (by simpa using hk)) rfl

theorem changesOnly_eraseBelow (fs : FileSystem) (l : Location) :
    ChangesOnly (fun k => l <+: k ∧ k ≠ l) fs (fs.eraseBelow l) := by
  refine changesOnly_filter (fun k => !isWithin l k || k = l) rfl (fun k hk => ?_) rfl
  rw [Bool.or_eq_false_iff, Bool.not_eq_false', decide_eq_false_iff_not] at hk
  exact ⟨isWithin_iff.mp hk.1, hk.2⟩

theorem lookup_erase_of_within (hl : l ≠ []) (h : l <+: k) : (fs.erase l).lookup k = none := by
  rw [lookup_erase fs hl, if_pos (isWithin_iff.mpr h)]

/-- A directory that was emptied lists nothing. -/
theorem names_eraseBelow (fs : FileSystem) (l : Location) : (fs.eraseBelow l).names l = [] := by
  rw [List.eq_nil_iff_forall_not_mem]
  intro name hname
  rw [mem_names, lookup_of_ne_nil append_singleton_ne_nil, eraseBelow,
    lookup_filter_key (fun k => !isWithin l k || k = l)] at hname
  have hwithin : isWithin l (l ++ [name]) = true := isWithin_iff.mpr (List.prefix_append l [name])
  simp [hwithin] at hname

/-! ## Trees -/

/-- Entries below a location, by the names that lead to them. -/
abbrev Tree := Location → Option Entry

def Tree.empty : Tree := fun _ => none

/-- An entry with nothing below it. -/
def Tree.leaf (e : Entry) : Tree := fun r => if r = [] then some e else none

/-- Entries have names and stand in directories. -/
def Tree.WellFormed (tree : Tree) : Prop :=
  ∀ r n, tree (r ++ [n]) ≠ none → IsName n ∧ ∃ mode, tree r = some (.directory mode)

theorem Tree.wellFormed_empty : Tree.empty.WellFormed := fun _ _ h => absurd rfl h

theorem Tree.wellFormed_leaf (e : Entry) : (Tree.leaf e).WellFormed :=
  fun _ _ h => absurd (if_neg append_singleton_ne_nil) h

def treeAt (fs : FileSystem) (l : Location) : Tree := fun r => fs.lookup (l ++ r)

theorem WellFormed.treeAt (h : fs.WellFormed) (l : Location) : (fs.treeAt l).WellFormed := by
  intro r n hn
  rw [FileSystem.treeAt, ← List.append_assoc] at hn
  exact ⟨h.name _ _ hn, isDirectoryAt_iff.mp (h.parent _ _ hn)⟩

theorem WellFormed.treeAt_eq_leaf (h : fs.WellFormed) (he : fs.lookup l = some e)
    (hd : e.isDirectory = false) : fs.treeAt l = .leaf e := by
  funext r
  rw [FileSystem.treeAt, Tree.leaf]
  split
  · rename_i hr
    rw [hr, List.append_nil, he]
  · rename_i hr
    exact h.lookup_append_eq_none hr (by rw [FileSystem.isDirectoryAt, he]; exact hd)

theorem WellFormed.treeAt_eq_empty (h : fs.WellFormed) (hl : fs.lookup l = none) :
    fs.treeAt l = .empty := by
  funext r
  by_cases hr : r = []
  · rw [FileSystem.treeAt, hr, List.append_nil, hl]
    rfl
  · exact h.lookup_append_eq_none hr (by rw [FileSystem.isDirectoryAt, hl]; rfl)

/-- The tree at `d` is `tree`, and nothing else is different. -/
structure Placed (d : Location) (tree : Tree) (fs fs' : FileSystem) : Prop where
  changes : ChangesOnly (d <+: ·) fs fs'
  tree : fs'.treeAt d = tree

variable {d : Location} {tree tree' : Tree}

theorem placed_refl (h : fs.treeAt d = tree) : Placed d tree fs fs := ⟨.refl _ fs, h⟩

theorem Placed.trans (h : Placed d tree fs fs') (h' : Placed d tree' fs' fs'') :
    Placed d tree' fs fs'' := ⟨h.changes.trans h'.changes, h'.tree⟩

theorem Placed.lookup (h : Placed d tree fs fs') (r : Location) : fs'.lookup (d ++ r) = tree r :=
  congrFun h.tree r

theorem placed_erase (hd : d ≠ []) : Placed d .empty fs (fs.erase d) :=
  ⟨changesOnly_erase fs d, by funext r; exact lookup_erase_of_within hd (List.prefix_append d r)⟩

/-- An entry put in place of another, what is below it staying. -/
theorem placed_insert_above (hd : d ≠ []) (e : Entry) :
    Placed d (fun r => if r = [] then some e else fs.treeAt d r) fs (fs.insert d e) := by
  refine ⟨(changesOnly_insert fs hd e).mono fun l hl => ?_, ?_⟩
  · obtain rfl : l = d := hl
    exact List.prefix_refl l
  · funext r
    rw [FileSystem.treeAt, lookup_insert fs hd, FileSystem.treeAt]
    by_cases hr : r = []
    · rw [hr, List.append_nil, if_pos rfl, if_pos rfl]
    · rw [if_neg (by simpa using hr), if_neg hr]

/-- An entry put where it is already. -/
theorem placed_insert_same (hd : d ≠ []) (he : fs.lookup d = some e) :
    Placed d (fs.treeAt d) fs (fs.insert d e) := by
  refine ⟨(placed_insert_above hd e).changes, (placed_insert_above hd e).tree.trans ?_⟩
  funext r
  split
  · rename_i hr
    rw [hr, FileSystem.treeAt, List.append_nil, he]
  · rfl

/-- An entry put where nothing is below. -/
theorem placed_insert (hd : d ≠ []) (hbelow : ∀ r, r ≠ [] → fs.lookup (d ++ r) = none) (e : Entry) :
    Placed d (.leaf e) fs (fs.insert d e) := by
  refine ⟨(placed_insert_above hd e).changes, ?_⟩
  rw [(placed_insert_above hd e).tree]
  funext r
  rw [Tree.leaf]
  split
  · rfl
  · rename_i hr
    exact hbelow r hr

/-- A well-formed tree in a directory leaves a well-formed file system. -/
theorem Placed.wellFormed (h : Placed (l ++ [name]) tree fs fs') (hwf : fs.WellFormed)
    (htree : tree.WellFormed)
    (hplace : tree [] ≠ none → IsName name ∧ fs.isDirectoryAt l = true) : fs'.WellFormed := by
  have hkeep : ∀ k n, ¬ l ++ [name] <+: k ++ [n] → fs'.isDirectoryAt k = fs.isDirectoryAt k := by
    intro k n hk
    rw [FileSystem.isDirectoryAt,
      h.changes.lookup k fun hp => hk (hp.trans (List.prefix_append k [n])),
      ← FileSystem.isDirectoryAt]
  have hentry : ∀ k n, fs'.lookup (k ++ [n]) ≠ none → IsName n ∧ fs'.isDirectoryAt k = true := by
    intro k n hne
    by_cases hk : l ++ [name] <+: k ++ [n]
    · obtain ⟨r, hr⟩ := hk
      rw [← hr, h.lookup] at hne
      rcases List.eq_nil_or_concat r with rfl | ⟨r, m, rfl⟩
      · rw [List.append_nil] at hr
        obtain ⟨rfl, hn⟩ := List.append_inj' hr rfl
        obtain rfl : name = n := by simpa using hn
        obtain ⟨hname, hdir⟩ := hplace hne
        refine ⟨hname, ?_⟩
        rw [FileSystem.isDirectoryAt, h.changes.lookup l, ← FileSystem.isDirectoryAt]
        · exact hdir
        · intro hp
          have hlength := hp.length_le
          rw [List.length_append, List.length_singleton] at hlength
          omega
      · rw [List.concat_eq_append] at hr hne
        rw [← List.append_assoc] at hr
        obtain ⟨rfl, hn⟩ := List.append_inj' hr rfl
        obtain rfl : m = n := by simpa using hn
        obtain ⟨hname, mode, hmode⟩ := htree r m hne
        exact ⟨hname, isDirectoryAt_of_lookup (by rw [h.lookup, hmode])⟩
    · rw [h.changes.lookup _ hk] at hne
      rw [hkeep k n hk]
      exact ⟨hwf.name k n hne, hwf.parent k n hne⟩
  exact ⟨fun k n hne => (hentry k n hne).1, fun k n hne => (hentry k n hne).2,
    h.changes.distinct hwf.distinct⟩

end PluginManager.FileSystem
