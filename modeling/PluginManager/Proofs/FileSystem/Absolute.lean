import PluginManager.Proofs.FileSystem.Canonical
import PluginManager.Proofs.FileSystem.Spelling

/-!
# Following absolute paths

A path that was made absolute goes through the working directory first and leaves out the dots.
Both make no difference for a directory; for anything else a dot at the end does, behind which there
is only something if it is a directory.

* `Walk.of_filter_eq`: **dots on the way to a directory** can be put anywhere.
* `HasWorkingDirectory`: the absolute path of the working directory leads to it.
* `rooted_absolute_iff`: both paths lead to a directory over as many links.
* `find_absolute`, `find_of_absolute`: **what is found by a path** is found by its absolute one, and
  a directory the other way round too.
-/

namespace PluginManager.FileSystem

variable {fs : FileSystem} {Q : Location → Prop} {l k : Location} {p q : Path} {piece : String}
  {pieces pieces' rest rest' : List String} {n mode : Nat} {e : Entry}

/-! ## Pieces that stand for nothing -/

theorem Walk.dots_append {dots : List String} (hdots : ∀ s ∈ dots, s = ".")
    (h : Walk fs Q l rest k n) : Walk fs Q l (dots ++ rest) k n := by
  induction dots with
  | nil => exact h
  | cons s dots ih =>
    obtain rfl := hdots s List.mem_cons_self
    exact .current (ih fun s hs => hdots s (List.mem_cons_of_mem _ hs))

/-- Before a piece that stands for a step there are dots only. -/
theorem exists_dots_of_filter (hne : piece ≠ ".")
    (h : pieces.filter (· ≠ ".") = (piece :: rest).filter (· ≠ ".")) :
    ∃ dots rest', pieces = dots ++ piece :: rest' ∧ (∀ s ∈ dots, s = ".") ∧
      rest'.filter (· ≠ ".") = rest.filter (· ≠ ".") := by
  rw [List.filter_cons_of_pos (by simpa using hne)] at h
  obtain ⟨dots, rest', heq, hdots, -, hrest⟩ := List.filter_eq_cons_iff.mp h
  exact ⟨dots, rest', heq, fun s hs => by simpa using hdots s hs, hrest⟩

/-- **Dots on the way to a directory** can be put anywhere. -/
theorem Walk.of_filter_eq (h : Walk fs Q l pieces k n) (hk : fs.isDirectoryAt k = true)
    (hfilter : pieces'.filter (· ≠ ".") = pieces.filter (· ≠ ".")) :
    Walk fs Q l pieces' k n := by
  induction h generalizing pieces' with
  | done hl =>
    have hdots : ∀ s ∈ pieces', s = "." := by simpa using hfilter
    rw [← List.append_nil pieces']
    exact .dots_append hdots (.done hl)
  | current _ ih => exact ih hk (by simpa using hfilter)
  | parent _ ih =>
    obtain ⟨dots, rest', rfl, hdots, hrest⟩ := exists_dots_of_filter (by decide) hfilter
    exact .dots_append hdots (.parent (ih hk hrest))
  | directory hp hl he _ ih =>
    obtain ⟨dots, rest', rfl, hdots, hrest⟩ := exists_dots_of_filter hp.ne_current hfilter
    exact .dots_append hdots (.directory hp hl he (ih hk hrest))
  | file _ _ he => exact absurd (isDirectory_of_lookup hk he) Bool.false_ne_true
  | link hp hl he _ ih =>
    -- The dots in the target of a link stay where they are.
    obtain ⟨dots, rest', rfl, hdots, hrest⟩ := exists_dots_of_filter hp.ne_current hfilter
    refine .dots_append hdots (.link hp hl he (ih hk ?_))
    rw [List.filter_append, List.filter_append, hrest]

/-- What comes before the last piece of a path that is found leads to a directory. -/
theorem exists_walk_of_find (hwf : fs.WellFormed) (h : find fs true p = .ok (k, e))
    (hsteps : steps p = pieces ++ [piece]) : ∃ k' n, n ≤ linkLimit ∧
      fs.isDirectoryAt k' = true ∧ Walk fs (fun _ => True) (fs.start p) pieces k' n := by
  obtain ⟨spot, hres, -⟩ := find_eq_ok_iff.mp h
  have hreaches := reaches_of_resolve hres
  rw [hsteps] at hreaches
  obtain ⟨k', n, hn, hk', hwalk⟩ :=
    hreaches.exists_walk hwf (List.cons_ne_nil _ _) (isDirectoryAt_start_of_resolve hres)
  exact ⟨k', n, hn, hk', hwalk⟩

/-- What is no directory has a name at the end of its path. -/
theorem exists_steps_of_find (hwf : fs.WellFormed) (h : find fs true p = .ok (k, e))
    (he : e.isDirectory = false) : ∃ init name, steps p = init ++ [name] ∧ name ≠ "." := by
  obtain ⟨spot, hres, rfl, hentry, -⟩ := find_eq_ok_iff.mp h
  have hstart := isDirectoryAt_start_of_resolve hres
  have hno : ∀ l, fs.isDirectoryAt l = true → fs.lookup l ≠ some e := by
    intro l hl hlookup
    exact absurd (he.symm.trans (isDirectory_of_lookup hl hlookup)) Bool.false_ne_true
  rcases List.eq_nil_or_concat (steps p) with hnil | ⟨init, name, hsteps⟩
  · have hreaches := reaches_of_resolve hres
    rw [hnil] at hreaches
    cases hreaches with
    | done => exact absurd hentry (hno _ hstart)
  · rw [List.concat_eq_append] at hsteps
    refine ⟨init, name, hsteps, ?_⟩
    rintro rfl
    obtain ⟨k', n, hn, hk', hwalk⟩ := exists_walk_of_find hwf h hsteps
    rw [Bool.true_or, resolve_of_walk true (usable_of_resolve hres) hstart hwalk hn hk' hsteps
      (List.cons_ne_nil _ _), followFrom_current, followFrom_nil] at hres
    obtain rfl := Except.ok.inj hres
    exact hno k' hk' hentry

/-! ## Absolute paths -/

/-- The working directory is a directory, and its absolute path leads to it. -/
def HasWorkingDirectory (fs : FileSystem) : Prop :=
  ∃ mode, find fs true (.ofLocation fs.workingDirectory) =
    .ok (fs.workingDirectory, .directory mode)

theorem HasWorkingDirectory.rooted (h : HasWorkingDirectory fs) (hwf : fs.WellFormed) :
    Rooted fs (.ofLocation fs.workingDirectory) fs.workingDirectory 0 := by
  obtain ⟨mode, hfind⟩ := h
  have hd := isDirectoryAt_of_lookup (lookup_of_find hfind)
  have hnames := isName_of_isDirectoryAt hwf hd
  refine rooted_ofLocation hwf hd fun s hs => ?_
  obtain ⟨spot, hres, -⟩ := find_eq_ok_iff.mp hfind
  exact (reaches_of_resolve hres).short s (by rwa [steps_ofLocation hnames])
    (hnames s hs).ne_current (hnames s hs).ne_parent

theorem absolute_eq_ok_iff : fs.absolute p = .ok q ↔
    p.absoluteFrom? (.ofLocation fs.workingDirectory) = some q := by
  rw [absolute]
  cases p.absoluteFrom? (.ofLocation fs.workingDirectory) <;> simp

theorem isAbsolute_absolute (h : fs.absolute p = .ok q) : q.isAbsolute = true :=
  Path.isAbsolute_of_absoluteFrom? (by simp [Path.ofLocation, Path.isAbsolute])
    (absolute_eq_ok_iff.mp h)

theorem start_absolute (h : fs.absolute p = .ok q) : fs.start q = [] := by
  rw [start, isAbsolute_absolute h, if_pos rfl]

/-- What an absolute path goes through before it goes the way of the path it was made of. -/
def absolutePrefix (fs : FileSystem) (p : Path) : List String :=
  if p.isAbsolute then [] else fs.workingDirectory

theorem hasNul_absolute (hwd : p.isAbsolute = false → HasWorkingDirectory fs)
    (h : fs.absolute p = .ok q) : hasNul q = hasNul p := by
  refine Path.hasNul_absoluteFrom? (fun habs => ?_) (absolute_eq_ok_iff.mp h)
  obtain ⟨mode, hfind⟩ := hwd habs
  exact (usable_of_find hfind).no_nul

theorem usable_absolute (hwd : p.isAbsolute = false → HasWorkingDirectory fs) (hp : Usable p)
    (h : fs.absolute p = .ok q) (hshort : q.text.utf8ByteSize < pathLimit) : Usable q := by
  refine ⟨?_, fun hempty => ?_, hshort⟩
  · rw [hasNul_absolute hwd h, hp.no_nul]
  · have habs := isAbsolute_absolute h
    rw [Path.isAbsolute, hempty] at habs
    exact absurd habs (by decide)

section Absolute

variable (hwf : fs.WellFormed) (hwd : p.isAbsolute = false → HasWorkingDirectory fs)
include hwf hwd

theorem steps_absolute (h : fs.absolute p = .ok q) : steps q = absolutePrefix fs p ++ p.way := by
  rw [Path.steps_absoluteFrom? (absolute_eq_ok_iff.mp h), absolutePrefix]
  cases habs : p.isAbsolute with
  | true => rfl
  | false =>
    have hd := ((hwd habs).rooted hwf).directory
    simp [steps_ofLocation (isName_of_isDirectoryAt hwf hd)]

theorem walk_absolute_iff (hk : fs.isDirectoryAt k = true) :
    Walk fs (fun _ => True) [] (absolutePrefix fs p ++ pieces.filter (· ≠ ".")) k n ↔
      Walk fs (fun _ => True) (fs.start p) pieces k n := by
  cases habs : p.isAbsolute with
  | true =>
    rw [absolutePrefix, FileSystem.start, habs]
    simp only [if_true, List.nil_append]
    exact ⟨fun h => h.of_filter_eq hk (by simp), fun h => h.of_filter_eq hk (by simp)⟩
  | false =>
    have hroot := (hwd habs).rooted hwf
    have hnames := isName_of_isDirectoryAt hwf hroot.directory
    have hopen := open_of_isDirectoryAt hwf hroot.directory
    rw [absolutePrefix, FileSystem.start, habs]
    simp only [Bool.false_eq_true, if_false]
    constructor
    · intro h
      exact (h.of_open hnames hopen).of_filter_eq hk (by simp)
    · intro h
      have hwalk := hroot.walk
      rw [start_ofLocation fs hnames, steps_ofLocation hnames] at hwalk
      have hgo := hwalk.append hroot.directory (h.of_filter_eq hk (by simp :
        (pieces.filter (· ≠ ".")).filter (· ≠ ".") = pieces.filter (· ≠ ".")))
      rwa [Nat.zero_add] at hgo

theorem isDirectoryAt_start_of_workingDirectory : fs.isDirectoryAt (fs.start p) = true := by
  rw [FileSystem.start]
  split
  · rfl
  · rename_i habs
    exact ((hwd (by simpa using habs)).rooted hwf).directory

/-- A path and its absolute one lead to a directory over as many links. -/
theorem rooted_absolute_iff (h : fs.absolute p = .ok q) :
    Rooted fs q k n ↔ Rooted fs p k n := by
  have hstart := start_absolute h
  have hsteps := steps_absolute hwf hwd h
  constructor
  · intro hq
    have hwalk := hq.walk
    rw [hstart, hsteps] at hwalk
    exact ⟨isDirectoryAt_start_of_workingDirectory hwf hwd,
      (walk_absolute_iff hwf hwd hq.directory).mp hwalk, hq.le, hq.directory⟩
  · intro hp
    refine ⟨by rw [hstart]; rfl, ?_, hp.le, hp.directory⟩
    rw [hstart, hsteps]
    exact (walk_absolute_iff hwf hwd hp.directory).mpr hp.walk

theorem find_directory_absolute (habs : fs.absolute p = .ok q)
    (hshort : q.text.utf8ByteSize < pathLimit) (h : find fs true p = .ok (k, .directory mode)) :
    find fs true q = .ok (k, .directory mode) := by
  have hu := usable_absolute hwd (usable_of_find h) habs hshort
  have hk := lookup_of_find h
  obtain ⟨n, hrooted⟩ := exists_rooted_of_find h (isDirectoryAt_of_lookup hk)
  exact ((rooted_absolute_iff hwf hwd habs).mpr hrooted).route.find_directory hu hk

/-- What is no directory is looked for by the same name, in the same directory. -/
theorem find_named_absolute (habs : fs.absolute p = .ok q)
    (hshort : q.text.utf8ByteSize < pathLimit) (h : find fs true p = .ok (k, e))
    (he : e.isDirectory = false) : find fs true q = .ok (k, e) := by
  have hu := usable_absolute hwd (usable_of_find h) habs hshort
  obtain ⟨init, name, hsteps, hname⟩ := exists_steps_of_find hwf h he
  obtain ⟨k', n, hn, hk', hwalk⟩ := exists_walk_of_find hwf h hsteps
  have hway : p.way = init.filter (· ≠ ".") ++ [name] := by
    rw [Path.way, hsteps, List.filter_append, List.filter_cons_of_pos (by simpa using hname)]
    rfl
  have hslash := Path.endsWithSlash_absoluteFrom? (absolute_eq_ok_iff.mp habs)
    (by rw [hway]; simp)
  have hwalk' := (walk_absolute_iff hwf hwd hk').mpr hwalk
  have hsteps' := steps_absolute hwf hwd habs
  rw [hway, ← List.append_assoc] at hsteps'
  rw [← start_absolute habs] at hwalk'
  have hstart := isDirectoryAt_start_of_workingDirectory hwf hwd
  have hstart' : fs.isDirectoryAt (fs.start q) = true := by
    rw [start_absolute habs]
    rfl
  have hne : [name] ≠ [] := List.cons_ne_nil name []
  have hres := resolve_of_walk true (usable_of_find h) hstart hwalk hn hk' hsteps hne
  have hres' := resolve_of_walk true hu hstart' hwalk' hn hk' hsteps' hne
  rw [find, Bool.true_or, hres] at h
  rw [find, Bool.true_or, hres', hslash]
  exact h

/-- **What is found by a path** is found by its absolute one, when that is short enough. -/
theorem find_absolute (habs : fs.absolute p = .ok q) (hshort : q.text.utf8ByteSize < pathLimit)
    (h : find fs true p = .ok (k, e)) : find fs true q = .ok (k, e) := by
  cases e with
  | directory mode => exact find_directory_absolute hwf hwd habs hshort h
  | file mode content => exact find_named_absolute hwf hwd habs hshort h rfl
  | link target => exact find_named_absolute hwf hwd habs hshort h rfl

/-- **A directory that is found by the absolute path** is found by the path, when that is short
enough. -/
theorem find_of_absolute (habs : fs.absolute p = .ok q) (hshort : p.text.utf8ByteSize < pathLimit)
    (h : find fs true q = .ok (k, .directory mode)) :
    find fs true p = .ok (k, .directory mode) := by
  have hk := lookup_of_find h
  obtain ⟨n, hrooted⟩ := exists_rooted_of_find h (isDirectoryAt_of_lookup hk)
  refine ((rooted_absolute_iff hwf hwd habs).mp hrooted).route.find_directory ⟨?_, ?_, hshort⟩ hk
  · rw [← hasNul_absolute hwd habs]
    exact (usable_of_find h).no_nul
  · intro hempty
    rw [absolute, Path.absoluteFrom?, if_pos hempty] at habs
    cases habs

end Absolute

end PluginManager.FileSystem
