import PluginManager.Proofs.FileSystem.Footprint
import PluginManager.Proofs.FileSystem.Visits
import PluginManager.Proofs.FileSystem.Written

/-!
# Directories that are the same

Two file systems may have the same in a directory and differ elsewhere.

* `SameBelow`: the same at a location and below it, in the order in which it is gone through.
* `SameBelow.alike`: paths that stay around such a directory are followed alike.
* `SameBelow.walkBelow_eq`: **a walk meets the same**, in the same order.
* `names_of_sublist`, `names_setContent`: what a directory lists after removals and after a file was
  written.
-/

namespace PluginManager.FileSystem

variable {fs fs' g g' : FileSystem} {order : Order} {k l m : Location}
  {r : List String} {levels levels' : Nat}

/-- The file systems have the same at `k` and below it.  The order in which it is listed only
matters where it is not sorted. -/
structure SameBelow (order : Order) (k : Location) (fs fs' : FileSystem) : Prop where
  lookup : ∀ r, fs'.lookup (k ++ r) = fs.lookup (k ++ r)
  names : order = .enumeration → ∀ r, fs'.names (k ++ r) = fs.names (k ++ r)

namespace SameBelow

theorem symm (h : SameBelow order k fs fs') : SameBelow order k fs' fs :=
  ⟨fun r => (h.lookup r).symm, fun ho r => (h.names ho r).symm⟩

/-- What leads to a directory are directories. -/
theorem alike (h : SameBelow order k fs fs') (hwf : fs.WellFormed) (hwf' : fs'.WellFormed)
    (hk : fs.isDirectoryAt k = true) (hm : Around k m) : Alike fs fs' m := by
  have hbelow : ∀ r, Alike fs fs' (k ++ r) := fun r => .inl (h.lookup r)
  rcases hm with ⟨r, rfl⟩ | ⟨r, hr⟩
  · exact hbelow r
  · by_cases hnil : r = []
    · obtain rfl : m = k := by rw [← hr, hnil, List.append_nil]
      exact List.append_nil m ▸ hbelow []
    · have hk' : fs'.isDirectoryAt k = true := (List.append_nil k ▸ hbelow []).directory hk
      rw [← hr] at hk hk'
      exact .inr ⟨hwf.isDirectoryAt hnil (lookup_ne_none hk),
        hwf'.isDirectoryAt hnil (lookup_ne_none hk')⟩

theorem arrange_eq (h : SameBelow order k fs fs') (hwf : fs.WellFormed) (hwf' : fs'.WellFormed)
    (r : List String) :
    order.arrange (fs'.names (k ++ r)) = order.arrange (fs.names (k ++ r)) := by
  cases order with
  | enumeration => exact h.names rfl r
  | sorted =>
    refine sortNames_congr (names_perm hwf.distinct hwf'.distinct fun name => ?_)
    rw [List.append_assoc, h.lookup]

end SameBelow

/-! ## Walks -/

theorem walkBelow_of_empty (order : Order) (enter : Visit → Bool) (levels : Nat) (p : Path)
    (names : List String) (h : ∀ name, fs.lookup (l ++ [name]) = none) :
    walkBelow fs order enter levels l p names = [] := by
  cases levels with
  | zero => rfl
  | succ levels =>
    have hnames : fs.names l = [] :=
      List.eq_nil_iff_forall_not_mem.mpr fun name hname => mem_names.mp hname (h name)
    have hnone : order.arrange (fs.names l) = [] :=
      List.perm_nil.mp (hnames ▸ order.arrange_perm (fs.names l))
    rw [walkBelow_succ, hnone, List.flatMap_nil]

/-- No name behind `l` leads further than the levels. -/
def Shallow (fs : FileSystem) (l : Location) (levels : Nat) : Prop :=
  ∀ r, fs.lookup (l ++ r) ≠ none → r.length ≤ levels

theorem shallow_height (fs : FileSystem) (l : Location) : Shallow fs l fs.height := by
  intro r hr
  obtain ⟨e, he⟩ := Option.ne_none_iff_exists'.mp hr
  have hlength := length_lt_height he
  rw [List.length_append] at hlength
  omega

theorem Shallow.child (h : Shallow fs l (levels + 1)) (name : String) :
    Shallow fs (l ++ [name]) levels := by
  intro r hr
  rw [List.append_assoc] at hr
  exact Nat.le_of_succ_le_succ (h (name :: r) hr)

theorem Shallow.lookup_eq_none (h : Shallow fs l 0) (name : String) :
    fs.lookup (l ++ [name]) = none := by
  by_contra hne
  exact absurd (h [name] hne) (by simp)

/-- **A walk meets the same** below directories that are the same. -/
theorem SameBelow.walkBelow_eq (h : SameBelow order k fs fs') (hwf : fs.WellFormed)
    (hwf' : fs'.WellFormed) (enter : Visit → Bool) (p : Path) (names : List String)
    (hlevels : Shallow fs (k ++ r) levels) (hlevels' : Shallow fs' (k ++ r) levels') :
    walkBelow fs' order enter levels' (k ++ r) p names =
      walkBelow fs order enter levels (k ++ r) p names := by
  have hchild : ∀ name, fs'.lookup (k ++ r ++ [name]) = fs.lookup (k ++ r ++ [name]) := by
    intro name
    rw [List.append_assoc, h.lookup]
  induction levels generalizing levels' r p names with
  | zero =>
    rw [walkBelow_of_empty _ _ _ _ _ hlevels.lookup_eq_none, walkBelow_of_empty]
    exact fun name => (hchild name).trans (hlevels.lookup_eq_none name)
  | succ levels ih =>
    cases levels' with
    | zero =>
      rw [walkBelow_of_empty _ _ _ _ _ hlevels'.lookup_eq_none, walkBelow_of_empty]
      exact fun name => (hchild name).symm.trans (hlevels'.lookup_eq_none name)
    | succ levels' =>
      rw [walkBelow_succ, walkBelow_succ, h.arrange_eq hwf hwf']
      congr 1
      funext name
      rw [visitsAt, visitsAt, hchild name]
      have hbelow := hlevels.child name
      have hbelow' := hlevels'.child name
      rw [List.append_assoc] at hbelow hbelow'
      have hrest := ih (p.child name) (names ++ [name]) hbelow hbelow' fun name' => by
        rw [List.append_assoc, h.lookup]
      rw [List.append_assoc]
      simp only [hrest]

/-! ## Listings -/

theorem eq_filter_of_sublist {α : Type} [DecidableEq α] {as bs : List α} (h : as.Sublist bs)
    (hbs : bs.Nodup) : as = bs.filter (· ∈ as) := by
  have hself : as.filter (· ∈ as) = as := List.filter_eq_self.mpr fun a ha => by simpa using ha
  have hsub := h.filter (· ∈ as)
  rw [hself] at hsub
  refine hsub.eq_of_length ((List.perm_ext_iff_of_nodup (hbs.sublist h) (hbs.filter _)).mpr
    fun a => ?_).length_eq
  rw [List.mem_filter, decide_eq_true_eq]
  exact ⟨fun ha => ⟨h.subset ha, ha⟩, fun ha => ha.2⟩

/-- What is left of a listing keeps its order. -/
theorem names_of_sublist (h : fs'.entries.Sublist fs.entries) (hwf : fs.WellFormed)
    (l : Location) :
    fs'.names l = (fs.names l).filter fun name => fs'.lookup (l ++ [name]) ≠ none := by
  have hsub : (fs'.names l).Sublist (fs.names l) := (h.filterMap _).reverse
  refine (eq_filter_of_sublist hsub (nodup_names hwf.distinct l)).trans ?_
  congr 1
  funext name
  rw [decide_eq_decide]
  exact mem_names

/-- A new file is listed first, and one that was there keeps its place. -/
theorem names_setContent (fs : FileSystem) (hl : l ≠ []) (mode : Nat) (content : Bytes)
    (k : Location) :
    (fs.setContent l mode content).names k =
      if fs.lookup l ≠ none then fs.names k
      else (childName? k l).toList ++ fs.names k := by
  have hkeys : (fs.setContent l mode content).entries.map Prod.fst =
      if l ∈ fs.entries.map Prod.fst then fs.entries.map Prod.fst
      else fs.entries.map Prod.fst ++ [l] := keys_replaceEntry l _ fs.entries
  rw [names_eq, names_eq, hkeys]
  by_cases he : fs.lookup l ≠ none
  · rw [if_pos he, if_pos ((mem_keys hl).mpr he)]
  · rw [if_neg he, if_neg (mt (mem_keys hl).mp he), List.filterMap_append, List.reverse_append]
    congr 1
    cases hname : childName? k l <;> simp [hname]

theorem SameBelow.setContent (h : SameBelow order k fs fs') (hl : k ++ r ≠ []) (mode : Nat)
    (content : Bytes) :
    SameBelow order k (fs.setContent (k ++ r) mode content)
      (fs'.setContent (k ++ r) mode content) := by
  refine ⟨fun r' => ?_, fun ho r' => ?_⟩
  · rw [lookup_setContent _ hl, lookup_setContent _ hl, h.lookup]
  · rw [names_setContent _ hl, names_setContent _ hl, h.lookup, h.names ho]

end PluginManager.FileSystem
