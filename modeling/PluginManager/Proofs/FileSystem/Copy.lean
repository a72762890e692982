import PluginManager.Proofs.FileSystem.Directories
import PluginManager.Proofs.FileSystem.Operations

/-!
# Copying, part by part

What the parts of a copy come down to when they succeed, whatever they find.

* `SameTree`: the same entries below a location, listed in the same order.
* `copyContents_eq_ok`, `copyEntry_eq_ok`: **a copy succeeds** when its parts do.
* `Opened.within`: a directory opened in another.
* `placed_setContent`: a file put where nothing is below.
-/

namespace PluginManager.FileSystem

variable {fs fs' fs₁ : FileSystem} {source destination p : Path} {s d l : Location} {name : String}
  {names : List String} {e : Entry} {levels : Nat}

/-! ## Below a location -/

/-- Something below a location. -/
def Below (d l : Location) : Prop := d <+: l ∧ l ≠ d

def EmptyBelow (fs : FileSystem) (d : Location) : Prop := ∀ r, r ≠ [] → fs.lookup (d ++ r) = none

theorem below_of_prefix_concat (h : d ++ [name] <+: l) : Below d l := by
  refine ⟨(List.prefix_append d [name]).trans h, ?_⟩
  rintro rfl
  have hlength := h.length_le
  rw [List.length_append, List.length_singleton] at hlength
  omega

/-- Only one name leads to what is below it. -/
theorem eq_of_prefix_concat {m n : String} {r : List String} (h : d ++ [m] <+: d ++ [n] ++ r) :
    m = n := by
  rw [List.append_assoc, List.prefix_append_right_inj] at h
  exact (List.cons_prefix_cons.mp h).1

theorem emptyBelow_of_lookup_eq_none (h : fs.WellFormed) (hd : fs.lookup d = none) :
    EmptyBelow fs d := fun r _ => congrFun (h.treeAt_eq_empty hd) r

/-- The same entries below a location, listed in the same order. -/
structure SameTree (s : Location) (fs fs' : FileSystem) : Prop where
  lookup : ∀ r, fs'.lookup (s ++ r) = fs.lookup (s ++ r)
  names : ∀ r, fs'.names (s ++ r) = fs.names (s ++ r)

namespace SameTree

theorem refl (s : Location) (fs : FileSystem) : SameTree s fs fs := ⟨fun _ => rfl, fun _ => rfl⟩

theorem symm (h : SameTree s fs fs') : SameTree s fs' fs :=
  ⟨fun r => (h.lookup r).symm, fun r => (h.names r).symm⟩

theorem trans (h : SameTree s fs fs') (h' : SameTree s fs' fs₁) : SameTree s fs fs₁ :=
  ⟨fun r => (h'.lookup r).trans (h.lookup r), fun r => (h'.names r).trans (h.names r)⟩

theorem of_changes {P : Location → Prop} (hP : ∀ r, ¬ P (s ++ r)) (hc : ChangesOnly P fs fs') :
    SameTree s fs fs' := by
  refine ⟨fun r => hc.lookup _ (hP r), fun r => hc.names _ fun n => ?_⟩
  rw [List.append_assoc]
  exact hP (r ++ [n])

theorem append (h : SameTree s fs fs') (r : Location) : SameTree (s ++ r) fs fs' := by
  refine ⟨fun r' => ?_, fun r' => ?_⟩
  · rw [List.append_assoc]
    exact h.lookup (r ++ r')
  · rw [List.append_assoc]
    exact h.names (r ++ r')

theorem treeAt (h : SameTree s fs fs') : fs'.treeAt s = fs.treeAt s := funext h.lookup

theorem isDirectoryAt (h : SameTree s fs fs') (r : Location) :
    fs'.isDirectoryAt (s ++ r) = fs.isDirectoryAt (s ++ r) := by
  rw [FileSystem.isDirectoryAt, h.lookup r, FileSystem.isDirectoryAt]

end SameTree

/-- A tree that was put elsewhere leaves this one as it was. -/
theorem Placed.sameTree {tree : Tree} (h : Placed d tree fs fs') (hapart : Apart s d) :
    SameTree s fs fs' := .of_changes (fun r => (hapart.append r).2) h.changes

/-! ## Contents -/

/-- `copyLevels` when the destination is there. -/
def copyContents (levels : Nat) (source destination : Path) : Task Unit := do
  let names ← Task.look source (·.readDirectory source)
  names.forM fun name =>
    copyEntry (copyLevels levels) (source.child name) (destination.child name)
  let mode ← Task.look source (·.mode source)
  Task.change destination (·.setMode destination mode)

theorem copyLevels_succ (levels : Nat) (source destination : Path) :
    copyLevels (levels + 1) source destination = (do
      Task.forPath destination (createDirectories destination)
      copyContents levels source destination) := rfl

theorem copyLevels_zero_ne_ok {u : Unit} : copyLevels 0 source destination fs ≠ .ok u fs' := by
  intro h
  cases h

theorem copyContents_eq_ok {u : Unit} :
    copyContents levels source destination fs = .ok u fs' ↔ ∃ names fs₁ mode,
      readDirectory fs source = .ok names ∧
      (names.forM fun name =>
        copyEntry (copyLevels levels) (source.child name) (destination.child name) : Task Unit) fs =
        .ok () fs₁ ∧
      FileSystem.mode fs₁ source = .ok mode ∧ setMode fs₁ destination mode = .ok fs' := by
  rw [copyContents, Task.bind_eq_ok]
  constructor
  · rintro ⟨names, _, hnames, hres⟩
    obtain ⟨hread, rfl⟩ := Task.look_eq_ok.mp hnames
    obtain ⟨_, fs₁, hentries, hres⟩ := Task.bind_eq_ok.mp hres
    obtain ⟨mode, _, hlook, hset⟩ := Task.bind_eq_ok.mp hres
    obtain ⟨hmode, rfl⟩ := Task.look_eq_ok.mp hlook
    exact ⟨names, fs₁, mode, hread, hentries, hmode, Task.change_eq_ok.mp hset⟩
  · rintro ⟨names, fs₁, mode, hread, hentries, hmode, hset⟩
    refine ⟨names, fs, Task.look_eq_ok.mpr ⟨hread, rfl⟩, ?_⟩
    refine Task.bind_eq_ok.mpr ⟨(), fs₁, hentries, ?_⟩
    exact Task.bind_eq_ok.mpr ⟨mode, fs₁, Task.look_eq_ok.mpr ⟨hmode, rfl⟩,
      Task.change_eq_ok.mpr hset⟩

/-! ## One entry -/

theorem copyEntry_eq_ok {copy : Path → Path → Task Unit} {u : Unit} :
    copyEntry copy source destination fs = .ok u fs' ↔ ∃ l e,
      find fs false source = .ok (l, e) ∧
        match e with
        | .link target => makeLink fs target destination = .ok fs'
        | .directory mode =>
          ∃ fs₁, copy source destination fs = .ok () fs₁ ∧ setMode fs₁ destination mode = .ok fs'
        | .file mode _ =>
          ∃ fs₁, copyFile fs source destination = .ok fs₁ ∧
            setMode fs₁ destination mode = .ok fs' := by
  rw [copyEntry, Task.bind_eq_ok]
  simp only [Task.look_eq_ok]
  constructor
  · rintro ⟨⟨l, e⟩, _, ⟨hfind, rfl⟩, h⟩
    refine ⟨l, e, hfind, ?_⟩
    cases e with
    | link target => exact Task.change_eq_ok.mp h
    | directory mode =>
      obtain ⟨_, fs₁, hcopy, hmode⟩ := Task.bind_eq_ok.mp h
      exact ⟨fs₁, hcopy, Task.change_eq_ok.mp hmode⟩
    | file mode content =>
      obtain ⟨_, fs₁, hcopy, hmode⟩ := Task.bind_eq_ok.mp h
      exact ⟨fs₁, Task.change_eq_ok.mp hcopy, Task.change_eq_ok.mp hmode⟩
  · rintro ⟨l, e, hfind, h⟩
    refine ⟨(l, e), fs, ⟨hfind, rfl⟩, ?_⟩
    cases e with
    | link target => exact Task.change_eq_ok.mpr h
    | directory mode =>
      obtain ⟨fs₁, hcopy, hmode⟩ := h
      exact Task.bind_eq_ok.mpr ⟨(), fs₁, hcopy, Task.change_eq_ok.mpr hmode⟩
    | file mode content =>
      obtain ⟨fs₁, hcopy, hmode⟩ := h
      exact Task.bind_eq_ok.mpr ⟨(), fs₁, Task.change_eq_ok.mpr hcopy, Task.change_eq_ok.mpr hmode⟩

/-! ## Opening a directory in the destination -/

theorem Opened.within {pre : List String} (h : Opened d pre fs fs') (hpre : pre <+: [name])
    (hd : fs.isDirectoryAt d = true) : ChangesOnly (d ++ [name] <+: ·) fs fs' := by
  refine h.changes.mono fun l hl => ?_
  obtain ⟨hnone, sub, hsub, rfl⟩ := hl
  by_cases heq : sub = [name]
  · subst heq
    exact List.prefix_refl _
  · have hsub' : sub <+: [] ++ [name] := hsub.trans hpre
    obtain rfl : sub = [] := List.prefix_nil.mp (prefix_concat_cases hsub' heq)
    rw [FileSystem.isDirectoryAt, ← List.append_nil d, hnone] at hd
    exact absurd hd (by decide)

/-! ## What is copied -/

theorem placed_setContent (hd : d ≠ []) (hempty : EmptyBelow fs d) (mode : Nat) (content : Bytes) :
    Placed d (.leaf (.file mode content)) fs (fs.setContent d mode content) := by
  have hput := placed_insert hd hempty (.file mode content)
  refine ⟨hput.changes.trans (changesOnly_touchAt _ d fs.clock _), ?_⟩
  rw [← hput.tree]
  funext r
  exact lookup_touchAt _ d fs.clock _

theorem names_of_readDirectory {Q : Location → Prop} (h : Route fs Q p l)
    (hres : readDirectory fs p = .ok names) : Usable p ∧ names = fs.names l := by
  rw [readDirectory] at hres
  cases hf : find fs true p with
  | error e => simp [hf] at hres
  | ok x =>
    obtain ⟨k, e⟩ := x
    obtain ⟨rfl, -, -⟩ := h.find_of_holds hf (.refl Q fs) rfl
    refine ⟨usable_of_find hf, ?_⟩
    cases e <;> simp [hf] at hres
    exact hres.symm

theorem lookup_of_mode {Q : Location → Prop} {mode : Nat} (h : Route fs Q p l)
    (hd : fs.isDirectoryAt l = true) (hres : FileSystem.mode fs p = .ok mode) :
    fs.lookup l = some (.directory mode) := by
  rw [FileSystem.mode] at hres
  cases hf : find fs true p with
  | error e => simp [hf] at hres
  | ok x =>
    obtain ⟨k, e⟩ := x
    obtain ⟨rfl, he, -⟩ := h.find_of_holds hf (.refl Q fs) rfl
    obtain ⟨mode', hmode'⟩ := isDirectoryAt_iff.mp hd
    obtain rfl : e = .directory mode' := Option.some.inj (he.symm.trans hmode')
    obtain rfl : mode' = mode := by simpa [hf] using hres
    exact he

/-- A mode is set on the directory that the path leads to. -/
theorem eq_of_setMode {Q : Location → Prop} {mode : Nat} (h : Route fs Q p l)
    (hd : fs.isDirectoryAt l = true) (hne : l ≠ []) (hres : setMode fs p mode = .ok fs') :
    fs' = fs.insert l (.directory mode) := by
  obtain ⟨k, e, hfind⟩ := exists_find_of_setMode hres
  obtain ⟨rfl, he, -⟩ := h.find_of_holds hfind (.refl Q fs) rfl
  obtain ⟨mode', hmode'⟩ := isDirectoryAt_iff.mp hd
  obtain rfl : e = .directory mode' := Option.some.inj (he.symm.trans hmode')
  rw [setMode_of_find hfind hne] at hres
  exact (Except.ok.inj hres).symm

end PluginManager.FileSystem
