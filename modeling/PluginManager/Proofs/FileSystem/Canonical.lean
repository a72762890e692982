import PluginManager.Proofs.FileSystem.Directories
import PluginManager.Proofs.FileSystem.Downward
import PluginManager.Proofs.FileSystem.Footprint

/-!
# Following canonical paths

The canonical path of a directory leads to it over no link.  So behind it there are more links to go
than behind any other path to the directory, and what is found behind the other path is found behind
the canonical one, as long as that is not too long.

* `Reaches.more`: with more links to go the same is reached.
* `rooted_ofLocation`: a canonical path leads to its location over no link.
* `Rooted.find_child_ofLocation`: **what is found behind a path is found behind the canonical one**.
* `Rooted.lookup_of_find_join`: a path that goes on below a tree without links stays in it.
-/

namespace PluginManager.FileSystem

variable {fs : FileSystem} {Q : Location → Prop} {l k o : Location} {p q r : Path}
  {name piece : String} {pieces names rest : List String} {n m links links' : Nat}
  {last slash : Bool} {kind : LastPiece} {spot : Spot} {e : Entry} {x : Location × Entry}

/-! ## Links to go -/

/-- With more links to go the same is reached. -/
theorem Reaches.more (h : Reaches fs last links slash l kind pieces spot) (hle : links ≤ links') :
    Reaches fs last links' slash l kind pieces spot := by
  induction h generalizing links' with
  | done => exact .done
  | current _ ih => exact .current (ih hle)
  | parent _ ih => exact .parent (ih hle)
  | directory hp hd _ ih => exact .directory hp hd (ih hle)
  | stop hp he => exact .stop hp he
  | link hp he hgo _ ih =>
    obtain ⟨links', rfl⟩ := Nat.exists_eq_add_one_of_ne_zero (show links' ≠ 0 by omega)
    exact .link hp he hgo (ih (by omega))

/-! ## Walks through directories -/

theorem Walk.of_directory (hname : IsName name) (hd : fs.isDirectoryAt (l ++ [name]) = true)
    (h : Walk fs Q l (name :: rest) k n) : Walk fs Q (l ++ [name]) rest k n := by
  cases h with
  | current _ => exact absurd rfl hname.ne_current
  | parent _ => exact absurd rfl hname.ne_parent
  | directory _ _ _ h => exact h
  | file _ _ he => exact absurd (isDirectory_of_lookup hd he) Bool.false_ne_true
  | link _ _ he _ => exact absurd (isDirectory_of_lookup hd he) Bool.false_ne_true

/-- What stands behind names that lead through directories is walked from there. -/
theorem Walk.of_open (hnames : ∀ n ∈ names, IsName n) (hopen : Open fs l names)
    (h : Walk fs Q l (names ++ rest) k n) : Walk fs Q (l ++ names) rest k n := by
  induction names generalizing l with
  | nil => rwa [List.append_nil]
  | cons name names ih =>
    have hd := hopen [name] (by simp)
    have hrest := ih (fun n hn => hnames n (List.mem_cons_of_mem name hn)) (fun pre hpre => by
        rw [List.append_assoc]
        exact hopen (name :: pre) (List.cons_prefix_cons.mpr ⟨rfl, hpre⟩))
      (h.of_directory (hnames name List.mem_cons_self) hd)
    rwa [List.append_assoc] at hrest

/-! ## Canonical paths -/

theorem steps_ofLocation (h : ∀ n ∈ k, IsName n) : steps (.ofLocation k) = k := by
  rw [Path.ofLocation_eq_descend h, Path.steps_descend _ h]
  rfl

theorem start_ofLocation (fs : FileSystem) (h : ∀ n ∈ k, IsName n) :
    fs.start (.ofLocation k) = [] := by
  rw [start, Path.ofLocation_eq_descend h, Path.isAbsolute_descend _ h]
  rfl

theorem open_of_isDirectoryAt (hwf : fs.WellFormed) (hk : fs.isDirectoryAt k = true) :
    Open fs [] k := by
  obtain ⟨mode, hmode⟩ := isDirectoryAt_iff.mp hk
  exact (hwf.clear (k := []) (by simp [hmode])).open hk

theorem isName_of_isDirectoryAt (hwf : fs.WellFormed) (hk : fs.isDirectoryAt k = true) :
    ∀ n ∈ k, IsName n := by
  obtain ⟨mode, hmode⟩ := isDirectoryAt_iff.mp hk
  exact hwf.isName (by simp [hmode])

/-- A canonical path leads to its location over no link. -/
theorem rooted_ofLocation (hwf : fs.WellFormed) (hk : fs.isDirectoryAt k = true)
    (hshort : ∀ n ∈ k, n.utf8ByteSize ≤ nameLimit) : Rooted fs (.ofLocation k) k 0 := by
  have hnames := isName_of_isDirectoryAt hwf hk
  have hfilter : k.filter (· ≠ ".") = k := by
    rw [List.filter_eq_self]
    exact fun n hn => by simpa using (hnames n hn).ne_current
  have hwalk : Walk fs (fun _ => True) [] k ([] ++ k.filter (· ≠ ".")) 0 := by
    refine Walk.down (fun hn => (hnames ".." hn).ne_parent rfl) ?_ ?_
    · rwa [hfilter]
    · rw [hfilter]
      exact open_of_isDirectoryAt hwf hk
  rw [hfilter, List.nil_append] at hwalk
  refine ⟨?_, ?_, Nat.zero_le _, hk⟩
  · rw [start_ofLocation fs hnames]
    rfl
  · rwa [start_ofLocation fs hnames, steps_ofLocation hnames]

theorem child_ofLocation (hnames : ∀ n ∈ k, IsName n) (name : String) :
    (Path.ofLocation k).child name = (Path.mk "/").descend (k ++ [name]) := by
  rw [Path.descend_concat, Path.ofLocation_eq_descend hnames]

/-- A canonical path that is followed is short enough. -/
theorem fits_of_find_child_ofLocation (hwf : fs.WellFormed) (hk : fs.isDirectoryAt k = true)
    (hname : IsName name) (h : find fs true ((Path.ofLocation k).child name) = .ok x) :
    Fits ⟨"/"⟩ (k ++ [name]) := by
  have hall : ∀ n ∈ k ++ [name], IsName n := by
    simpa [or_imp, forall_and] using ⟨isName_of_isDirectoryAt hwf hk, hname⟩
  rw [child_ofLocation (isName_of_isDirectoryAt hwf hk)] at h
  refine ⟨usable_of_find h, fun n hn => ?_⟩
  obtain ⟨spot, hres, -⟩ := find_eq_ok_iff.mp h
  refine (reaches_of_resolve hres).short n ?_ (hall n hn).ne_current (hall n hn).ne_parent
  rw [Path.steps_descend _ hall]
  exact List.mem_append_right _ hn

/-- **What is found behind a path is found behind the canonical one**, when that is short enough. -/
theorem Rooted.find_child_ofLocation (h : Rooted fs p k n) (hwf : fs.WellFormed)
    (hname : IsName name) (hfits : Fits ⟨"/"⟩ (k ++ [name]))
    (hf : find fs true (p.child name) = .ok x) :
    find fs true ((Path.ofLocation k).child name) = .ok x := by
  have hnames := isName_of_isDirectoryAt hwf h.directory
  have hone : ∀ n ∈ [name], IsName n := by simpa using hname
  have hcanonical := rooted_ofLocation hwf h.directory fun n hn =>
    hfits.short n (List.mem_append_left _ hn)
  have hu : Usable ((Path.ofLocation k).child name) := by
    rw [child_ofLocation hnames]
    exact hfits.usable
  rw [Path.child_eq_descend] at hf hu ⊢
  obtain ⟨spot, hres, hlocation, hentry, hslash⟩ := find_eq_ok_iff.mp hf
  rw [Bool.true_or] at hres
  have hne : [name] ≠ [] := List.cons_ne_nil name []
  rw [h.resolve_descend true (usable_of_resolve hres) hone hne] at hres
  have hreaches := (reaches_of_followFrom hres).more (Nat.sub_le linkLimit n)
  have hres' : resolve fs true ((Path.ofLocation k).descend [name]) = .ok spot := by
    rw [hcanonical.resolve_descend true hu hone hne, Nat.sub_zero, hreaches.followFrom_eq]
  exact find_eq_ok_iff.mpr ⟨spot, hres', hlocation, hentry, hslash⟩

/-! ## Below a tree without links -/

/-- **A path that goes on below a tree without links** stays in it, whatever way led to the tree. -/
theorem Rooted.lookup_of_find_join (h : Rooted fs p k n) (hwalk : Walk fs Q k (steps q) o m)
    (ho : fs.isDirectoryAt o = true) (hno : ∀ s target, fs.lookup (o ++ s) ≠ some (.link target))
    (hr : r.GoesDown) (hne : r.way ≠ [])
    (hqr : (q.join r).isAbsolute = false) (hf : find fs true (p.join (q.join r)) = .ok (l, e)) :
    l = o ++ r.way ∧ fs.lookup (o ++ r.way) = some e := by
  have hrest : steps r ≠ [] := by
    intro hnil
    rw [Path.way, hnil] at hne
    exact hne rfl
  have hsteps : steps (p.join (q.join r)) = steps p ++ (steps q ++ steps r) := by
    rw [steps_join p hqr, steps_join q hr.relative]
  obtain ⟨spot, hres, rfl, hentry, -⟩ := find_eq_ok_iff.mp hf
  obtain ⟨links, kind, hfollow⟩ := h.route.resolve_append true h.directory (usable_of_find hf)
    (Path.isAbsolute_join p hqr) hsteps (by simp [hrest])
  rw [Bool.true_or, hfollow] at hres
  -- Links enough for the way to the tree are left when there are as many more.
  have hreaches := (reaches_of_followFrom hres).more (Nat.le_add_right links m)
  obtain ⟨kind', hgo⟩ := hwalk.followFrom_append true (p.join (q.join r)).endsWithSlash kind ho
    hrest (Nat.le_add_left m links)
  have hbelow := reaches_of_followFrom (hgo.symm.trans hreaches.followFrom_eq)
  obtain ⟨-, hends⟩ := hbelow.clear hr.no_parent ho fun pre _ _ target => hno pre target
  rcases hends with hlocation | ⟨target, htarget⟩
  · refine ⟨hlocation, ?_⟩
    rw [← hentry, hbelow.entry_eq, hlocation]
    rfl
  · exact absurd htarget (hno _ target)

end PluginManager.FileSystem
