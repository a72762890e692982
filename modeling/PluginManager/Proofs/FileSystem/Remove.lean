import PluginManager.FileSystem.Tree
import PluginManager.Proofs.FileSystem.Descent

/-!
# Removing whatever is there

`removeAll` takes away a location with all below it.  A link is taken away itself, and nothing there
is no error.

* `removeAll_of_clear`: **what is removed** on a clear way.
* `placed_of_removeAll`: nothing is left whenever it succeeds, and nothing else is different.
* `removeAll_ok`: it succeeds where nothing but directories may be on the way.
* `removeAll_again`: it succeeds once more where it has succeeded.
-/

namespace PluginManager.FileSystem

variable {fs fs' : FileSystem} {Q : Location → Prop} {d k : Location} {p : Path}
  {names : List String}

/-- What `removeAll` leaves of a file system with the entry at `d`. -/
def without (fs : FileSystem) (d : Location) : FileSystem :=
  match fs.lookup d with
  | none => fs
  | some (.directory _) => (fs.eraseBelow d).erase d
  | some _ => fs.erase d

theorem placed_without (h : fs.WellFormed) (hd : d ≠ []) : Placed d .empty fs (fs.without d) := by
  rw [without]
  split
  · rename_i hnone
    exact placed_refl (h.treeAt_eq_empty hnone)
  · have hbelow : ChangesOnly (d <+: ·) fs (fs.eraseBelow d) :=
      (changesOnly_eraseBelow fs d).mono fun _ hl => hl.1
    exact ⟨hbelow.trans (placed_erase hd).changes, (placed_erase hd).tree⟩
  · exact placed_erase hd

/-! ## Behind a route -/

variable (hroute : Route fs Q p k) (hk : fs.isDirectoryAt k = true)
  (hnames : ∀ name ∈ names, IsName name) (hne : names ≠ [])

include hroute hk hnames hne

theorem find_false_descend (hclear : Clear fs k names) (hfits : Fits p names) :
    find fs false (p.descend names) =
      match fs.lookup (k ++ names) with
      | none => .error .notFound
      | some e => .ok (k ++ names, e) := by
  rw [find, endsWithSlash_descend p hnames hne, Bool.or_false,
    hroute.resolve_descend hk hnames hne hclear hfits (.inl rfl)]
  rfl

theorem removeFile_descend (hclear : Clear fs k names) (hfits : Fits p names) {e : Entry}
    (he : fs.lookup (k ++ names) = some e) (hd : e.isDirectory = false) :
    removeFile fs (p.descend names) = .ok (fs.erase (k ++ names)) := by
  rw [removeFile, hroute.resolve_descend hk hnames hne hclear hfits (.inl rfl), he]
  cases e with
  | directory mode => exact absurd hd (by simp [Entry.isDirectory])
  | file mode content => rfl
  | link target => rfl

omit hroute in
/-- The directory is empty when it is removed, so nothing stands in the way but what became of the
route. -/
theorem removeTree_of_route (hclear : Clear fs k names) (hfits : Fits p names)
    (hd : fs.isDirectoryAt (k ++ names) = true)
    (hroute' : Route (fs.eraseBelow (k ++ names)) Q p k) :
    removeTree (k ++ names) (p.descend names) fs =
      .ok () ((fs.eraseBelow (k ++ names)).erase (k ++ names)) := by
  have hchanges := changesOnly_eraseBelow fs (k ++ names)
  have hproper : ∀ pre, pre <+: names → ¬ (k ++ names <+: k ++ pre ∧ k ++ pre ≠ k ++ names) := by
    intro pre hpre hbelow
    have hlength := hbelow.1.length_le
    have heq := hpre.eq_of_length_le (by simpa using hlength)
    exact hbelow.2 (by rw [heq])
  have hsame : ∀ pre, pre <+: names → (fs.eraseBelow (k ++ names)).isDirectoryAt (k ++ pre) =
      fs.isDirectoryAt (k ++ pre) := by
    intro pre hpre
    rw [FileSystem.isDirectoryAt, hchanges.lookup _ (hproper pre hpre), ← FileSystem.isDirectoryAt]
  have hk' : (fs.eraseBelow (k ++ names)).isDirectoryAt k = true := by
    have := hsame [] List.nil_prefix
    rw [List.append_nil] at this
    rw [this, hk]
  have hclear' : Clear (fs.eraseBelow (k ++ names)) k names := fun pre hpre hneq => by
    rw [hsame pre hpre, hclear pre hpre hneq]
  obtain ⟨mode, hmode⟩ := isDirectoryAt_iff.mp ((hsame names (List.prefix_refl _)).trans hd)
  rw [removeTree, removeDirectory,
    hroute'.resolve_descend hk' hnames hne hclear' hfits (.inl rfl), hmode]
  simp only [names_eraseBelow, List.isEmpty_nil, if_true]

theorem removeTree_descend (hclear : Clear fs k names) (hfits : Fits p names)
    (hd : fs.isDirectoryAt (k ++ names) = true) (hoff : ∀ l, Q l → ¬ k ++ names <+: l) :
    removeTree (k ++ names) (p.descend names) fs =
      .ok () ((fs.eraseBelow (k ++ names)).erase (k ++ names)) := by
  have hchanges := changesOnly_eraseBelow fs (k ++ names)
  exact removeTree_of_route hk hnames hne hclear hfits hd
    (hroute.of_holds (hchanges.holds fun l hl h => hoff l hl h.1) hchanges.workingDirectory)

/-- **What is removed** on a clear way. -/
theorem removeAll_of_clear (hclear : Clear fs k names) (hfits : Fits p names)
    (hoff : ∀ l, Q l → ¬ k ++ names <+: l) :
    removeAll (p.descend names) fs = .ok () (fs.without (k ++ names)) := by
  rw [removeAll, find_false_descend hroute hk hnames hne hclear hfits, without]
  cases he : fs.lookup (k ++ names) with
  | none => rfl
  | some e =>
    cases e with
    | directory mode =>
      exact removeTree_descend hroute hk hnames hne hclear hfits (isDirectoryAt_of_lookup he) hoff
    | file mode content =>
      simp only [FileTask.change, removeFile_descend hroute hk hnames hne hclear hfits he rfl]
    | link target =>
      simp only [FileTask.change, removeFile_descend hroute hk hnames hne hclear hfits he rfl]

omit hroute hk in
theorem removeAll_of_missing (h : resolve fs false (p.descend names) = .error .notFound) :
    removeAll (p.descend names) fs = .ok () fs := by
  rw [removeAll, find, endsWithSlash_descend p hnames hne, Bool.or_false, h]

omit hroute hk in
theorem removeAll_of_blocked {e : FileError} (he : e ≠ .notFound)
    (h : resolve fs false (p.descend names) = .error e) :
    removeAll (p.descend names) fs = .error e fs := by
  rw [removeAll, find, endsWithSlash_descend p hnames hne, Bool.or_false, h]
  cases e with
  | notFound => exact absurd rfl he
  | _ => rfl

/-- **Removing succeeds** where directories or nothing are on the way. -/
theorem removeAll_ok (hlinks : NoLinks fs k names) (hfile : ¬ MeetsFile fs k names)
    (hfits : Fits p names) (hoff : ∀ l, Q l → ¬ k ++ names <+: l) :
    ∃ fs', removeAll (p.descend names) fs = .ok () fs' := by
  have hdescent := hroute.descent hk hnames hne hlinks (.inl rfl : false = false ∨ _)
  cases hres : resolve fs false (p.descend names) with
  | ok spot =>
    have hclear := (hroute.clear_of_resolve hk hnames hne hlinks (.inl rfl) hres).1
    exact ⟨_, removeAll_of_clear hroute hk hnames hne hclear hfits hoff⟩
  | error e =>
    rw [hres] at hdescent
    cases hdescent with
    | missing => exact ⟨fs, removeAll_of_missing hnames hne hres⟩
    | blocked _ _ hcause => exact absurd hcause (by simp [hfits, hfile])

/-- **What has happened** whenever removing succeeds. -/
theorem placed_of_removeAll (hwf : fs.WellFormed) (hlinks : NoLinks fs k names)
    (hoff : ∀ l, Q l → ¬ k ++ names <+: l)
    (h : removeAll (p.descend names) fs = .ok () fs') : Placed (k ++ names) .empty fs fs' := by
  have hdescent := hroute.descent hk hnames hne hlinks (.inl rfl : false = false ∨ _)
  cases hres : resolve fs false (p.descend names) with
  | ok spot =>
    obtain ⟨hclear, hfits, -⟩ := hroute.clear_of_resolve hk hnames hne hlinks (.inl rfl) hres
    rw [removeAll_of_clear hroute hk hnames hne hclear hfits hoff] at h
    obtain rfl : fs.without (k ++ names) = fs' := by simpa using h
    exact placed_without hwf (by simp [hne])
  | error e =>
    rw [hres] at hdescent
    cases hdescent with
    | missing pre hpre _ hmissing =>
      rw [removeAll_of_missing hnames hne hres] at h
      obtain rfl : fs = fs' := by simpa using h
      -- What is missing has nothing below it, the end of the way included.
      obtain ⟨rest, rfl⟩ := hpre
      refine placed_refl ?_
      funext r
      have hempty := congrFun (hwf.treeAt_eq_empty hmissing) (rest ++ r)
      rwa [FileSystem.treeAt, ← List.append_assoc, List.append_assoc k] at hempty
    | blocked _ he _ =>
      rw [removeAll_of_blocked hnames hne he hres] at h
      exact absurd h (by simp)

/-- **What could be removed can be removed again** where the way is the same, with nothing at its
end.  Then nothing is changed. -/
theorem removeAll_again {fs₁ : FileSystem} (hroute₁ : Route fs₁ Q p k)
    (hk₁ : fs₁.isDirectoryAt k = true) (hlinks : NoLinks fs k names)
    (hsame : ∀ pre, pre <+: names → pre ≠ names → fs₁.lookup (k ++ pre) = fs.lookup (k ++ pre))
    (hfree : fs₁.lookup (k ++ names) = none) (hoff : ∀ l, Q l → ¬ k ++ names <+: l)
    (h : removeAll (p.descend names) fs = .ok () fs') :
    removeAll (p.descend names) fs₁ = .ok () fs₁ := by
  cases hres : resolve fs false (p.descend names) with
  | ok spot =>
    obtain ⟨hclear, hfits, -⟩ := hroute.clear_of_resolve hk hnames hne hlinks (.inl rfl) hres
    have hclear₁ : Clear fs₁ k names := fun pre hpre hproper => by
      rw [FileSystem.isDirectoryAt, hsame pre hpre hproper]
      exact hclear pre hpre hproper
    rw [removeAll_of_clear hroute₁ hk₁ hnames hne hclear₁ hfits hoff, without, hfree]
  | error e =>
    by_cases hmissing : e = .notFound
    · rw [hmissing] at hres
      exact removeAll_of_missing hnames hne
        (hroute.missing_again hk hroute₁ hk₁ hnames hne hlinks hsame hres)
    · rw [removeAll_of_blocked hnames hne hmissing hres] at h
      exact absurd h (by simp)

end PluginManager.FileSystem
