import PluginManager.Proofs.FileSystem.Enumeration
import PluginManager.Proofs.FileSystem.SameBelow
import PluginManager.Proofs.Text.Order

/-!
# Walks in order

A sorted walk goes through every directory in the order of the names, and through what is in a
directory before it goes on to the next name.  So what it meets comes in the order of the lists of
names, although no such list is ever sorted: `a/x` before `a.b`.

* `pairwise_sortNames_lt`: names of which none is repeated come in strict order.
* `pairwise_walkBelow`: **what is met comes in order**, by induction on the levels.
* `SameEntries.walk_eq`: it does not matter in which order the entries are listed.
-/

namespace PluginManager.FileSystem

variable {fs fs' : FileSystem} {enter : Visit → Bool} {levels : Nat} {l : Location} {p : Path}
  {name name' : String} {names : List String} {v w : Visit}

theorem lt_of_le_of_ne_text {s t : String} (hle : s ≤ t) (hne : s ≠ t) : s < t := by
  by_contra hlt
  exact hne (String.le_antisymm hle (String.not_lt.mp hlt))

/-- Names of which none is repeated come in strict order. -/
theorem pairwise_sortNames_lt (h : names.Nodup) : (sortNames names).Pairwise (· < ·) := by
  have hdistinct : (sortNames names).Nodup := (sortNames_perm names).nodup_iff.mpr h
  exact ((pairwise_sortNames names).and hdistinct).imp fun h => lt_of_le_of_ne_text h.1 h.2

theorem lt_append_of_ne_nil {r : List String} (hr : r ≠ []) : names < names ++ r := by
  obtain ⟨n, rest, rfl⟩ := List.exists_cons_of_ne_nil hr
  have h : names ++ [] < names ++ n :: rest := List.append_left_lt (List.nil_lt_cons n rest)
  rwa [List.append_nil] at h

/-- What begins with a smaller name comes before what begins with a greater one. -/
theorem lt_of_begins (h : name < name') {ns ns' : List String} (hns : names ++ [name] <+: ns)
    (hns' : names ++ [name'] <+: ns') : ns < ns' := by
  obtain ⟨r, rfl⟩ := hns
  obtain ⟨r', rfl⟩ := hns'
  rw [List.append_assoc, List.append_assoc]
  exact List.append_left_lt (List.cons_lt_cons_iff.mpr (.inl h))

/-- **What is met comes in order.** -/
theorem pairwise_walkBelow (hwf : fs.WellFormed) (enter : Visit → Bool) (levels : Nat)
    (l : Location) (p : Path) (names : List String) :
    (walkBelow fs .sorted enter levels l p names).Pairwise (fun v w => v.names < w.names) := by
  induction levels generalizing l p names with
  | zero => exact List.Pairwise.nil
  | succ levels ih =>
    rw [walkBelow_succ, List.pairwise_flatMap]
    constructor
    · intro name _
      rw [visitsAt]
      split
      · exact List.Pairwise.nil
      · simp only
        split
        · exact List.Pairwise.nil
        · split
          · refine List.pairwise_cons.mpr ⟨fun w hw => ?_, ih _ _ _⟩
            obtain ⟨r, e, hne, -, -, rfl, -⟩ := (mem_walkBelow hwf).mp hw
            exact lt_append_of_ne_nil hne
          · exact List.pairwise_singleton _ _
    · refine (pairwise_sortNames_lt (nodup_names hwf.distinct l)).imp ?_
      intro name name' hlt v hv w hw
      exact lt_of_begins hlt (prefix_of_mem_visitsAt hwf hv) (prefix_of_mem_visitsAt hwf hw)

theorem SameEntries.sameBelow (h : SameEntries fs fs') (k : Location) :
    SameBelow .sorted k fs fs' :=
  ⟨fun r => h.lookup (k ++ r), fun ho => absurd ho (by decide)⟩

/-- **A sorted walk** meets the same in whatever order the entries are listed. -/
theorem SameEntries.walk_eq (h : SameEntries fs fs') (hwf : fs.WellFormed) (hwf' : fs'.WellFormed)
    (enter : Visit → Bool) (p : Path) :
    fs'.walk .sorted enter p = fs.walk .sorted enter p := by
  have hbelow : ∀ l, walkBelow fs' .sorted enter fs'.height l p [] =
      walkBelow fs .sorted enter fs.height l p [] := by
    intro l
    have hwalk := (h.sameBelow l).walkBelow_eq (r := []) hwf hwf' enter p []
      (shallow_height _ _) (shallow_height _ _)
    rwa [List.append_nil] at hwalk
  rw [walk, walk]
  simp only [h.find_eq, hbelow]

end PluginManager.FileSystem
