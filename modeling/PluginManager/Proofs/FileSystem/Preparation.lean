import PluginManager.Proofs.FileSystem.Footprint
import PluginManager.Proofs.FileSystem.Times
import PluginManager.Proofs.FileSystem.Written
import PluginManager.Proofs.Path.Ancestors

/-!
# Directories for any path

A path of any form, with dots and slashes, is made step by step from the outside.  Behind the first
name that is missing only names and single dots may stand.

* `exists_of_makeDirectory`: what making one directory does.
* `leaves_createFirst`: what each directory that is made keeps, making all of them keeps.
* `find_of_createDirectories`: **where they could be made**, the directory is there.
* `followFrom_plain`: where pieces lead behind the first name that is missing.
* `Plain`: what such a path must look like.  `Prepared`: some of its directories were made, and
  nothing else.
* `Prepared.leaves_drop`: **all that making the directories of a path does**, or those of them that
  enclose the others.
* `Prepared.find_eq`: no file is found that was not found before.
-/

namespace PluginManager.FileSystem

variable {fs fs' fs₀ : FileSystem} {l k : Location} {p q : Path} {name : String}
  {names pieces rest : List String} {links n : Nat} {last slash : Bool} {kind : LastPiece}
  {spot : Spot} {e : Entry}

/-! ## One directory -/

theorem staysIn_grow (fs : FileSystem) (hl : l ≠ []) : StaysIn (· = l) fs (fs.grow l) :=
  (staysIn_insert fs hl _).trans (staysIn_touchAt _ l fs.clock)

theorem wellFormed_grow (hwf : fs.WellFormed) (hl : IsPlace fs l) (hfree : fs.lookup l = none) :
    (fs.grow l).WellFormed := by
  obtain ⟨init, name, rfl, hname, hd⟩ := hl
  have hempty := emptyBelow_of_lookup_eq_none hwf hfree
  have hplaced := placed_insert append_singleton_ne_nil hempty (.directory newDirectoryMode)
  have hinsert := hplaced.wellFormed hwf (Tree.wellFormed_leaf _) fun _ => ⟨hname, hd⟩
  have hsame : ∀ k, (fs.grow (init ++ [name])).lookup k =
      (fs.insert (init ++ [name]) (.directory newDirectoryMode)).lookup k := fun k =>
    lookup_touchAt _ _ fs.clock k
  refine ⟨fun k m hk => ?_, fun k m hk => ?_, hinsert.distinct⟩
  · rw [hsame] at hk
    exact hinsert.name k m hk
  · rw [hsame] at hk
    rw [isDirectoryAt, hsame, ← isDirectoryAt]
    exact hinsert.parent k m hk

/-- **What making a directory does**: there is one where nothing was. -/
theorem exists_of_makeDirectory (h : makeDirectory fs p = .ok fs') :
    ∃ spot, resolve fs false p = .ok spot ∧ spot.last = .name ∧ spot.entry = none ∧
      fs' = fs.grow spot.location := by
  rw [makeDirectory] at h
  cases hfree : freeSpot fs p with
  | error cause => simp [hfree, Except.map] at h
  | ok spot =>
    rw [hfree] at h
    obtain ⟨hres, hlast, hentry⟩ := exists_of_freeSpot hfree
    exact ⟨spot, hres, hlast, hentry, (Except.ok.inj h).symm⟩

/-! ## Several directories -/

theorem leaves_ensureDirectory {R : FileSystem → Prop} (h : R fs)
    (hmake : ∀ fs', makeDirectory fs p = .ok fs' → R fs') :
    Task.Leaves (ensureDirectory p) fs R := by
  constructor
  · intro u fs' hres
    rw [ensureDirectory] at hres
    cases hm : makeDirectory fs p with
    | ok fs₁ =>
      simp only [hm, EStateM.Result.ok.injEq] at hres
      exact hres.2 ▸ hmake fs₁ hm
    | error cause =>
      simp only [hm] at hres
      split at hres
      · exact (EStateM.Result.ok.inj hres).2 ▸ h
      · exact absurd hres (by simp)
  · intro cause fs' hres
    rw [ensureDirectory] at hres
    cases hm : makeDirectory fs p with
    | ok fs₁ => simp [hm] at hres
    | error cause =>
      simp only [hm] at hres
      split at hres
      · exact absurd hres (by simp)
      · exact (EStateM.Result.error.inj hres).2 ▸ h

/-- **What each directory that is made keeps**, making all of them keeps, whatever comes of it. -/
theorem leaves_createFirst {R : FileSystem → Prop} {ps : List Path} (h : R fs)
    (hstep : ∀ q ∈ ps, q.text ≠ "" → ∀ fs fs', R fs → makeDirectory fs q = .ok fs' → R fs') :
    Task.Leaves (createFirst ps) fs R := by
  induction ps generalizing fs with
  | nil => exact Task.leaves_pure () h
  | cons p outer ih =>
    by_cases hp : p.text = ""
    · refine (Task.leaves_pure () h).congr ?_
      rw [createFirst]
      exact if_pos hp
    · by_cases hmissing : fs.makeDirectory p = .error .notFound
      · have houter := ih h fun q hq => hstep q (List.mem_cons_of_mem p hq)
        have heq := @createFirst_missing fs p outer hp hmissing
        cases hres : createFirst outer fs with
        | error cause fs₁ =>
          rw [hres] at heq
          constructor
          · intro u fs' h'
            rw [heq] at h'
            exact absurd h' (by simp)
          · intro cause fs' h'
            rw [heq] at h'
            obtain ⟨-, rfl⟩ := EStateM.Result.error.inj h'
            exact houter.error _ _ hres
        | ok u fs₁ =>
          rw [hres] at heq
          have h₁ := houter.ok _ _ hres
          have hlast := leaves_ensureDirectory h₁ fun fs' =>
            hstep p List.mem_cons_self hp fs₁ fs' h₁
          constructor
          · intro u fs' h'
            exact hlast.ok u fs' (heq.symm.trans h')
          · intro cause fs' h'
            exact hlast.error cause fs' (heq.symm.trans h')
      · exact (leaves_ensureDirectory h fun fs' => hstep p List.mem_cons_self hp fs fs' h).congr
          (createFirst_found hp hmissing)

/-- Where a directory was made, the path leads to one. -/
theorem find_of_makeDirectory (h : makeDirectory fs p = .ok fs') :
    ∃ k mode, find fs' true p = .ok (k, .directory mode) := by
  obtain ⟨spot, hres, -, hentry, rfl⟩ := exists_of_makeDirectory h
  have hreaches := reaches_of_resolve hres
  have hfree : fs.lookup spot.location = none := by rw [← hreaches.entry_eq, hentry]
  have hne : spot.location ≠ [] := by
    intro hnil
    exact absurd (hnil ▸ hfree) (by simp)
  have hguides : Guides fs (fs.grow spot.location) :=
    (changesOnly_grow fs hne).guides fun _ hl => hl ▸ hfree
  have hfollowed := (hreaches.followed (by simp [hentry])).resolve_eq (usable_of_resolve hres)
    (isDirectoryAt_start_of_resolve hres)
  have hmade := lookup_grow fs hne
  refine ⟨_, _, find_eq_ok_iff.mpr
    ⟨_, resolve_of_guides hguides hfollowed ?_, rfl, hmade, fun _ => rfl⟩⟩
  intro target htarget
  exact absurd (hmade.symm.trans htarget) (by simp)

/-- **Where the directories could be made**, the path leads to the last of them. -/
theorem find_of_createDirectories (hp : p.text ≠ "") (h : createDirectories p fs = .ok () fs') :
    ∃ k mode, find fs' true p = .ok (k, .directory mode) := by
  obtain ⟨fs₁, hensure⟩ : ∃ fs₁, ensureDirectory p fs₁ = .ok () fs' := by
    obtain ⟨outer, houter⟩ := Path.exists_ancestors p
    rw [createDirectories, houter] at h
    by_cases hmissing : fs.makeDirectory p = .error .notFound
    · rw [createFirst_missing hp hmissing] at h
      cases hres : createFirst outer fs with
      | error cause fs₁ => simp [hres] at h
      | ok u fs₁ =>
        rw [hres] at h
        exact ⟨fs₁, h⟩
    · exact ⟨fs, (createFirst_found hp hmissing).symm.trans h⟩
  rw [ensureDirectory] at hensure
  split at hensure
  · rename_i fs₂ hmake
    obtain rfl := (EStateM.Result.ok.inj hensure).2
    exact find_of_makeDirectory hmake
  · split at hensure
    · rename_i hd
      obtain rfl := (EStateM.Result.ok.inj hensure).2
      rw [isDirectory] at hd
      split at hd
      · rename_i k e hfind
        obtain ⟨mode, rfl⟩ := exists_mode_of_isDirectory hd
        exact ⟨k, mode, hfind⟩
      · exact absurd hd (by simp)
    · exact absurd hensure (by simp)

/-! ## Names and dots -/

/-- The pieces are names that are short enough, or single dots. -/
def ArePlain (pieces : List String) : Prop := ∀ piece ∈ pieces, piece = "." ∨ IsLookedUp piece

/-- The names among the pieces. -/
abbrev namesOf (pieces : List String) : List String := pieces.filter (· ≠ ".")

theorem namesOf_cons_of_isLookedUp {piece : String} (hp : IsLookedUp piece) :
    namesOf (piece :: rest) = piece :: namesOf rest :=
  List.filter_cons_of_pos (by simpa using hp.ne_current)

/-- **Where plain pieces lead** when there are directories on the way, or nothing: to the end of
their names, or they miss one before it. -/
theorem followFrom_plain (hplain : ArePlain pieces) (hpass : Passable fs l (namesOf pieces)) :
    followFrom fs last links slash l kind pieces = .error .notFound ∨
      ∃ kind', followFrom fs last links slash l kind pieces =
        .ok ⟨l ++ namesOf pieces, fs.lookup (l ++ namesOf pieces), kind', slash⟩ := by
  induction pieces generalizing l kind with
  | nil => exact .inr ⟨kind, by simp [followFrom_nil]⟩
  | cons piece rest ih =>
    have hrest : ArePlain rest := fun x hx => hplain x (List.mem_cons_of_mem piece hx)
    rcases hplain piece List.mem_cons_self with rfl | hp
    · rw [followFrom_current]
      exact ih hrest hpass
    · rw [namesOf_cons_of_isLookedUp hp] at hpass ⊢
      have hhere := hpass [piece] (List.prefix_append [piece] _)
      rcases hhere with hnone | hd
      · by_cases hnil : rest = []
        · subst hnil
          rw [followFrom_last last slash kind hp (.inr (by simp [hnone]))]
          exact .inr ⟨.name, rfl⟩
        · exact .inl (followFrom_missing last slash kind hp hnil hnone)
      · obtain ⟨mode, hmode⟩ := isDirectoryAt_iff.mp hd
        rw [followFrom_directory last slash kind hp hmode]
        have hbehind : Passable fs (l ++ [piece]) (namesOf rest) := by
          intro pre hpre
          rw [List.append_assoc]
          exact hpass (piece :: pre) (List.cons_prefix_cons.mpr ⟨rfl, hpre⟩)
        have hlocation : l ++ [piece] ++ namesOf rest = l ++ piece :: namesOf rest := by simp
        rw [← hlocation]
        exact ih hrest hbehind

/-! ## Where a path leaves what there is -/

/-- Up to `l` the path leads through what there is, and then it misses a name. -/
structure Departs (fs : FileSystem) (p : Path) (l : Location) (name : String)
    (after : List String) : Prop where
  walk : ∃ before n, steps p = before ++ name :: after ∧ n ≤ linkLimit ∧
    Walk fs (fun _ => True) (fs.start p) before l n
  start : fs.isDirectoryAt (fs.start p) = true
  directory : fs.isDirectoryAt l = true
  lookedUp : IsLookedUp name
  missing : fs.lookup (l ++ [name]) = none

/-- Behind a name that it misses the path has names and single dots only. -/
def Plain (fs : FileSystem) (p : Path) : Prop :=
  ∀ l name after, Departs fs p l name after → ArePlain after

/-- A path of names and single dots is such a path, whatever there is. -/
theorem plain_of_arePlain (h : ArePlain (steps p)) : Plain fs p := by
  intro l name after hdep piece hpiece
  obtain ⟨before, n, hsteps, -, -⟩ := hdep.walk
  refine h piece ?_
  rw [hsteps]
  exact List.mem_append_right before (List.mem_cons_of_mem name hpiece)

variable {after : List String}

theorem Departs.child (h : Departs fs p l name after) {x : String} (hx : IsName x) :
    Departs fs (p.child x) l name (after ++ [x]) := by
  obtain ⟨before, n, hsteps, hn, hwalk⟩ := h.walk
  have hstart : fs.start (p.child x) = fs.start p := by
    rw [FileSystem.start, FileSystem.start, Path.isAbsolute_child_eq p hx]
  refine ⟨⟨before, n, ?_, hn, by rwa [hstart]⟩, by rw [hstart]; exact h.start, h.directory,
    h.lookedUp, h.missing⟩
  rw [steps_child p hx, hsteps, List.append_assoc, List.cons_append]

theorem Plain.of_child {x : String} (hx : IsName x) (h : Plain fs (p.child x)) : Plain fs p :=
  fun l name after hdep piece hpiece =>
    h l name (after ++ [x]) (hdep.child hx) piece (List.mem_append_left [x] hpiece)

/-- Below a name that is missing there is nothing. -/
theorem Departs.lookup_eq_none (h : Departs fs p l name after) (hwf : fs.WellFormed)
    (r : List String) : fs.lookup (l ++ name :: r) = none := by
  by_cases hr : r = []
  · rw [hr]
    exact h.missing
  · rw [List.append_cons]
    refine hwf.lookup_append_eq_none hr ?_
    rw [isDirectoryAt, h.missing]
    rfl

/-- A path that goes on behind a missing name finds nothing. -/
theorem Departs.resolve_eq_notFound (h : Departs fs p l name after) (hu : Usable p)
    (hafter : after ≠ []) : resolve fs last p = .error .notFound := by
  obtain ⟨before, n, hsteps, hn, hwalk⟩ := h.walk
  rw [resolve_of_walk last hu h.start hwalk hn h.directory hsteps (List.cons_ne_nil name after)]
  exact followFrom_missing last _ .root h.lookedUp hafter h.missing

/-- Where a free name is found the path leaves what there is. -/
theorem exists_departs_of_resolve (hwf : fs.WellFormed) (h : resolve fs false q = .ok spot)
    (hlast : spot.last = .name) (hentry : spot.entry = none) :
    ∃ l name, Departs fs q l name [] ∧ spot.location = l ++ [name] := by
  have hd := isDirectoryAt_start_of_resolve h
  have hreaches := reaches_of_resolve h
  rcases List.eq_nil_or_concat (steps q) with hnil | ⟨before, name, hsteps⟩
  · rw [hnil] at hreaches
    cases hreaches with
    | done => exact absurd hlast (by simp)
  · rw [List.concat_eq_append] at hsteps
    rw [hsteps] at hreaches
    obtain ⟨l, n, hn, hl, hwalk⟩ := hreaches.exists_walk hwf (List.cons_ne_nil name []) hd
    rw [resolve_of_walk false (usable_of_resolve h) hd hwalk hn hl hsteps
      (List.cons_ne_nil name [])] at h
    have hcurrent : name ≠ "." := fun hp => hreaches.last_ne_name (.inl hp) hlast
    have hparent : name ≠ ".." := fun hp => hreaches.last_ne_name (.inr hp) hlast
    have hp := isLookedUp_of_followFrom hcurrent hparent h
    rw [followFrom_last false _ .root hp (.inl rfl)] at h
    obtain rfl := Except.ok.inj h
    exact ⟨l, name, ⟨⟨before, n, hsteps, hn, hwalk⟩, hd, hl, hp, hentry⟩, rfl⟩

/-- On the way to a directory every path finds something. -/
theorem Walk.entry_ne_none {before : List String} (hwf : fs.WellFormed)
    (h : Walk fs (fun _ => True) l (before ++ rest) k n) (hn : n ≤ links)
    (hl : fs.isDirectoryAt l = true) (hk : fs.isDirectoryAt k = true)
    (hfollow : followFrom fs false links slash l kind before = .ok spot) : spot.entry ≠ none := by
  obtain ⟨m, n', hn', hm, hwalk⟩ : ∃ m n', n' ≤ links ∧ fs.isDirectoryAt m = true ∧
      Walk fs (fun _ => True) l before m n' := by
    by_cases hrest : rest = []
    · rw [hrest, List.append_nil] at h
      exact ⟨k, n, hn, hk, h⟩
    · obtain ⟨kind', slash', hspot⟩ := h.exists_spot slash kind hn
      exact (reaches_of_followFrom (hspot fs (.refl _ fs) rfl)).exists_walk hwf hrest hl
  intro hnone
  obtain ⟨kind', slash', hspot⟩ := hwalk.exists_spot slash kind hn'
  have hfollowed := ((reaches_of_followFrom hfollow).followed (by simp [hnone])).followFrom_eq
  obtain rfl := Except.ok.inj (hfollowed.symm.trans (hspot fs (.refl _ fs) rfl))
  exact lookup_ne_none hm hnone

/-- Where a path leads to a directory, nothing that encloses it is made. -/
theorem Route.makeDirectory_ne_ok (hwf : fs.WellFormed) (h : Route fs (fun _ => True) p k)
    (hk : fs.isDirectoryAt k = true) (hq : q.Encloses p) (hne : q.text ≠ "") :
    makeDirectory fs q ≠ .ok fs' := by
  intro hmake
  obtain ⟨spot, hres, -, hentry, -⟩ := exists_of_makeDirectory hmake
  obtain ⟨hsteps, hstart⟩ := hq
  obtain ⟨-, habs⟩ := hstart hne
  obtain ⟨rest, hrest⟩ := hsteps
  have hsame : fs.start q = fs.start p := by rw [FileSystem.start, FileSystem.start, habs]
  obtain ⟨n, hn, hwalk⟩ := h.walk
  rw [← hrest, ← hsame] at hwalk
  rw [resolve_of_usable (usable_of_resolve hres) (isDirectoryAt_start_of_resolve hres)] at hres
  exact hwalk.entry_ne_none hwf hn (hsame ▸ h.directory) hk hres hentry

/-! ## Some of the directories -/

/-- The location is a new directory where the path leaves what there was. -/
def IsNewDirectory (fs : FileSystem) (p : Path) (fs' : FileSystem) (m : Location) : Prop :=
  (∃ l name after, Departs fs p l name after ∧ Gap fs l (name :: namesOf after) m) ∧
    fs'.lookup m = some (.directory newDirectoryMode)

/-- Directories of the path that were missing were made, and nothing else. -/
inductive Prepared (fs : FileSystem) (p : Path) : FileSystem → Prop
  | untouched : Prepared fs p fs
  | made {l : Location} {name : String} {after : List String} {fs' : FileSystem} :
      Departs fs p l name after → fs'.WellFormed →
      StaysIn (fun m => Gap fs l (name :: namesOf after) m ∧
        fs'.lookup m = some (.directory newDirectoryMode)) fs fs' →
      Prepared fs p fs'

section Made

variable (hdep : Departs fs p l name after) (hwf : fs.WellFormed)
  (hstays : StaysIn (fun m => Gap fs l (name :: namesOf after) m ∧
    fs'.lookup m = some (.directory newDirectoryMode)) fs fs')

include hstays

/-- Whatever led on leads on. -/
theorem guides_of_made : Guides fs fs' :=
  hstays.changes.guides fun _ hm => hm.1.1

include hdep hwf

/-- Behind the missing name there are new directories, or nothing. -/
theorem passable_of_made : Passable fs' l (name :: namesOf after) := by
  intro pre hpre
  cases pre with
  | nil =>
    right
    rw [List.append_nil]
    exact (guides_of_made hstays).directory l hdep.directory
  | cons x pre =>
    obtain ⟨rfl, -⟩ := List.cons_prefix_cons.mp hpre
    have hnone := hdep.lookup_eq_none hwf pre
    by_cases hd : fs'.lookup (l ++ x :: pre) = some (.directory newDirectoryMode)
    · exact .inr (isDirectoryAt_of_lookup hd)
    · left
      rw [hstays.changes.lookup _ fun h => hd h.2, hnone]

/-- Nothing is below them. -/
theorem lookup_concat_of_made (x : String) :
    fs'.lookup (l ++ (name :: namesOf after ++ [x])) = none := by
  rw [hstays.changes.lookup, List.cons_append]
  · exact hdep.lookup_eq_none hwf _
  · rintro ⟨⟨-, pre, hpre, heq⟩, -⟩
    exact ne_of_prefix_of_concat hpre (List.append_cancel_left heq).symm

end Made

theorem Prepared.wellFormed (hwf : fs.WellFormed) (h : Prepared fs p fs') : fs'.WellFormed := by
  cases h with
  | untouched => exact hwf
  | made _ hwf' _ => exact hwf'

theorem Prepared.guides (h : Prepared fs p fs') : Guides fs fs' := by
  cases h with
  | untouched => exact ⟨fun _ hm => hm, fun _ _ hm => hm, rfl⟩
  | made _ _ hstays => exact guides_of_made hstays

theorem Prepared.staysIn (h : Prepared fs p fs') : StaysIn (IsNewDirectory fs p fs') fs fs' := by
  cases h with
  | untouched => exact .refl _ fs
  | made hdep _ hstays => exact hstays.mono fun m hm => ⟨⟨_, _, _, hdep, hm.1⟩, hm.2⟩

theorem ArePlain.cons (hp : IsLookedUp name) (h : ArePlain after) : ArePlain (name :: after) := by
  intro piece hpiece
  rcases List.mem_cons.mp hpiece with rfl | hpiece
  · exact .inr hp
  · exact h piece hpiece

/-- Behind a departure a path is followed among the new directories. -/
theorem follow_of_made (hdep : Departs fs p l name after) (hwf : fs.WellFormed)
    (hstays : StaysIn (fun m => Gap fs l (name :: namesOf after) m ∧
      fs'.lookup m = some (.directory newDirectoryMode)) fs fs') (hplain : ArePlain after)
    (hpieces : pieces <+: name :: after) :
    followFrom fs' last links slash l kind pieces = .error .notFound ∨
      ∃ kind', followFrom fs' last links slash l kind pieces =
        .ok ⟨l ++ namesOf pieces, fs'.lookup (l ++ namesOf pieces), kind', slash⟩ := by
  refine followFrom_plain (fun x hx => hplain.cons hdep.lookedUp x (hpieces.subset hx)) ?_
  have hprefix : namesOf pieces <+: name :: namesOf after := by
    rw [← namesOf_cons_of_isLookedUp hdep.lookedUp]
    exact hpieces.filter _
  exact fun pre hpre => passable_of_made hdep hwf hstays pre (hpre.trans hprefix)

/-- A free name that a part of the path leads to lies behind the departure. -/
theorem exists_names_of_made (hdep : Departs fs p l name after)
    (hwf : fs.WellFormed) (hwf' : fs'.WellFormed)
    (hstays : StaysIn (fun m => Gap fs l (name :: namesOf after) m ∧
      fs'.lookup m = some (.directory newDirectoryMode)) fs fs') (hplain : ArePlain after)
    (hsteps : steps q <+: steps p) (hstart : ∀ fs : FileSystem, fs.start q = fs.start p)
    (hres : resolve fs' false q = .ok spot) (hentry : spot.entry = none) :
    ∃ r, name :: r <+: name :: namesOf after ∧ spot.location = l ++ name :: r := by
  obtain ⟨before, n, hbefore, hn, hwalk⟩ := hdep.walk
  have hguides := guides_of_made hstays
  have hstart' : fs'.start q = fs.start p := by
    rw [hstart, start_congr hguides.workingDirectory p]
  have hwalk' : Walk fs' (fun _ => True) (fs'.start q) before l n := by
    rw [hstart']
    exact hwalk.of_guides hguides hdep.directory
  have hd : fs'.isDirectoryAt (fs'.start q) = true := by
    rw [hstart']
    exact hguides.directory _ hdep.start
  have hl := hguides.directory l hdep.directory
  have hu := usable_of_resolve hres
  -- No part of the way before the departure leads to a free name.
  have hbehind : ∀ rest, before ≠ steps q ++ rest := by
    intro rest heq
    rw [heq] at hwalk'
    rw [resolve_of_usable hu hd] at hres
    exact hwalk'.entry_ne_none hwf' hn hd hl hres hentry
  obtain ⟨pieces, hq, hne, hpieces⟩ : ∃ pieces, steps q = before ++ pieces ∧ pieces ≠ [] ∧
      pieces <+: name :: after := by
    rw [hbefore] at hsteps
    rcases List.prefix_or_prefix_of_prefix hsteps (List.prefix_append before (name :: after)) with
      ⟨rest, hrest⟩ | ⟨pieces, hq⟩
    · exact absurd hrest.symm (hbehind rest)
    · refine ⟨pieces, hq.symm, ?_, ?_⟩
      · rintro rfl
        exact hbehind [] (by rw [List.append_nil, ← hq, List.append_nil])
      · rw [← hq] at hsteps
        exact (List.prefix_append_right_inj before).mp hsteps
  rw [resolve_of_walk false hu hd hwalk' hn hl hq hne] at hres
  rcases follow_of_made hdep hwf hstays hplain hpieces with herror | ⟨kind', hok⟩
  · exact absurd (hres.symm.trans herror) (by simp)
  · obtain rfl := Except.ok.inj (hres.symm.trans hok)
    obtain ⟨rest, rfl⟩ : ∃ rest, pieces = name :: rest := by
      cases pieces with
      | nil => exact absurd rfl hne
      | cons x rest => exact ⟨rest, by rw [(List.cons_prefix_cons.mp hpieces).1]⟩
    have hcons : ∀ pieces, namesOf (name :: pieces) = name :: namesOf pieces :=
      fun _ => namesOf_cons_of_isLookedUp hdep.lookedUp
    refine ⟨namesOf rest, ?_, by rw [hcons]⟩
    rw [← hcons, ← hcons]
    exact hpieces.filter _

/-- **Making one of the directories** makes one more. -/
theorem Prepared.of_makeDirectory {fs'' : FileSystem} (hwf : fs.WellFormed) (hplain : Plain fs p)
    (hq : q.Encloses p) (hne : q.text ≠ "") (h : Prepared fs p fs')
    (hmake : makeDirectory fs' q = .ok fs'') : Prepared fs p fs'' := by
  obtain ⟨spot, hres, hlast, hentry, rfl⟩ := exists_of_makeDirectory hmake
  have hwf' := h.wellFormed hwf
  have hplace : IsPlace fs' spot.location := (reaches_of_resolve hres).isPlace hwf'
    (forall_mem_steps q) (isDirectoryAt_start_of_resolve hres) (by simp) hlast
  have hfree : fs'.lookup spot.location = none := by
    rw [← (reaches_of_resolve hres).entry_eq, hentry]
  have hwf'' := wellFormed_grow hwf' hplace hfree
  have hgrow := staysIn_grow fs' hplace.ne_nil
  have hmade := lookup_grow fs' hplace.ne_nil
  obtain ⟨hsteps, hstart⟩ := hq
  obtain ⟨-, habs⟩ := hstart hne
  have hstart : ∀ fs : FileSystem, fs.start q = fs.start p := fun fs => by
    rw [FileSystem.start, FileSystem.start, habs]
  cases h with
  | untouched =>
    obtain ⟨l, name, ⟨⟨before, n, hbefore, hn, hwalk⟩, hd, hl, hp, hmissing⟩, hlocation⟩ :=
      exists_departs_of_resolve hwf hres hlast hentry
    obtain ⟨after, hafter⟩ := hsteps
    rw [hbefore, List.append_assoc, List.singleton_append] at hafter
    rw [hstart] at hwalk hd
    refine .made ⟨⟨before, n, hafter.symm, hn, hwalk⟩, hd, hl, hp, hmissing⟩ hwf''
      (hgrow.mono fun m hm => ?_)
    rw [hm]
    exact ⟨⟨hfree, [name], List.prefix_append [name] _, hlocation⟩, hmade⟩
  | @made l name after _ hdep _ hstays =>
    obtain ⟨r, hprefix, hlocation⟩ := exists_names_of_made hdep hwf hwf' hstays
      (hplain l name after hdep) hsteps hstart hres hentry
    refine .made hdep hwf'' ((hstays.mono ?_).trans (hgrow.mono ?_))
    · intro m hm
      refine ⟨hm.1, ?_⟩
      rw [hgrow.changes.lookup, hm.2]
      rintro rfl
      exact absurd (hfree.symm.trans hm.2) (by simp)
    · rintro m rfl
      refine ⟨⟨?_, _, hprefix, hlocation⟩, hmade⟩
      rw [hlocation]
      exact hdep.lookup_eq_none hwf r

/-- **All that making some of the directories of a path does**, whether or not some of them were
made before. -/
theorem Prepared.leaves_drop (hwf : fs.WellFormed) (hplain : Plain fs p) (h : Prepared fs p fs')
    (count : Nat) : Task.Leaves (createFirst (p.ancestors.drop count)) fs' (Prepared fs p) :=
  leaves_createFirst h fun _ hq hne _ _ h hmake =>
    h.of_makeDirectory hwf hplain (Path.encloses_of_mem_ancestors (List.mem_of_mem_drop hq)) hne
      hmake

/-- The same of all of them. -/
theorem Prepared.leaves_createDirectories (hwf : fs.WellFormed) (hplain : Plain fs p)
    (h : Prepared fs p fs') : Task.Leaves (createDirectories p) fs' (Prepared fs p) :=
  h.leaves_drop hwf hplain 0

/-! ## What is found then -/

/-- The path itself leads to the last of its directories, or misses one before it. -/
theorem resolve_of_made (hdep : Departs fs p l name after) (hwf : fs.WellFormed)
    (hstays : StaysIn (fun m => Gap fs l (name :: namesOf after) m ∧
      fs'.lookup m = some (.directory newDirectoryMode)) fs fs') (hplain : ArePlain after)
    (hu : Usable p) :
    resolve fs' last p = .error .notFound ∨
      ∃ kind slash, resolve fs' last p = .ok ⟨l ++ namesOf (name :: after),
        fs'.lookup (l ++ namesOf (name :: after)), kind, slash⟩ := by
  obtain ⟨before, n, hbefore, hn, hwalk⟩ := hdep.walk
  have hguides := guides_of_made hstays
  have hstart := start_congr hguides.workingDirectory p
  rw [resolve_of_walk last hu (by rw [hstart]; exact hguides.directory _ hdep.start)
    (by rw [hstart]; exact hwalk.of_guides hguides hdep.directory) hn
    (hguides.directory l hdep.directory) hbefore (List.cons_ne_nil name after)]
  exact (follow_of_made hdep hwf hstays hplain (List.prefix_refl _)).imp_right
    fun ⟨kind', hok⟩ => ⟨kind', p.endsWithSlash, hok⟩

/-- **What is found of a name in the directory** is what was found before, an error included. -/
theorem Prepared.find_cases {x : String} (hwf : fs.WellFormed) (hx : IsName x)
    (hplain : Plain fs (p.child x)) (h : Prepared fs p fs') :
    fs' = fs ∨ ∃ e, ∀ last,
      find fs last (p.child x) = .error e ∧ find fs' last (p.child x) = .error e := by
  cases h with
  | untouched => exact .inl rfl
  | @made l name after _ hdep _ hstays =>
    right
    by_cases hu : Usable (p.child x)
    · refine ⟨.notFound, fun last => ⟨?_, ?_⟩⟩
      · rw [find, (hdep.child hx).resolve_eq_notFound hu (by simp)]
      · have hnames : namesOf (name :: (after ++ [x])) = name :: namesOf after ++ [x] := by
          rw [namesOf_cons_of_isLookedUp hdep.lookedUp, namesOf, List.filter_append,
            List.filter_cons_of_pos (by simpa using hx.ne_current), List.filter_nil]
          rfl
        have hstays' : StaysIn (fun m => Gap fs l (name :: namesOf (after ++ [x])) m ∧
            fs'.lookup m = some (.directory newDirectoryMode)) fs fs' := by
          refine hstays.mono ?_
          rintro m ⟨⟨hnone, pre, hpre, hm⟩, hd⟩
          refine ⟨⟨hnone, pre, ?_, hm⟩, hd⟩
          rw [← namesOf_cons_of_isLookedUp hdep.lookedUp, hnames]
          exact hpre.trans (List.prefix_append _ [x])
        rw [find]
        rcases resolve_of_made (hdep.child hx) hwf hstays' (hplain l name _ (hdep.child hx)) hu with
          herror | ⟨kind, slash, hok⟩
        · rw [herror]
        · rw [hok, hnames, lookup_concat_of_made hdep hwf hstays]
    · obtain ⟨e, -, herror⟩ := resolve_of_not_usable (Path.text_ne_empty_of_steps
        (by simp [steps_child p hx])) hu
      exact ⟨e, fun last => ⟨by rw [find, herror], by rw [find, herror]⟩⟩

/-- Something is found in the directory only if it was there. -/
theorem Prepared.eq_of_find {x : String} {y : Location × Entry} (hwf : fs.WellFormed)
    (hx : IsName x) (hplain : Plain fs p) (h : Prepared fs p fs')
    (hfind : find fs' last (p.child x) = .ok y) : fs' = fs := by
  cases h with
  | untouched => rfl
  | @made l name after _ hdep hwf' hstays =>
    exfalso
    obtain ⟨spot, hres, -, hentry, -⟩ := find_eq_ok_iff.mp hfind
    obtain ⟨k, hk, hroute⟩ := exists_route_of_resolve_child hwf' hx hres
    have hp : p.text ≠ "" := by
      obtain ⟨before, n, hbefore, -, -⟩ := hdep.walk
      exact Path.text_ne_empty_of_steps (by simp [hbefore])
    have hu := (usable_of_find hfind).of_child hp hx
    obtain ⟨kind, slash, hspot⟩ := hroute.exists_spot hu
    have hwhole := hspot fs' (.refl _ fs') rfl rfl
    rcases resolve_of_made hdep hwf hstays (hplain l name after hdep) hu with
      herror | ⟨kind', slash', hok⟩
    · exact absurd (hwhole.symm.trans herror) (by simp)
    · obtain ⟨rfl, -⟩ := Spot.mk.inj (Except.ok.inj (hwhole.symm.trans hok))
      have hfree := lookup_concat_of_made hdep hwf hstays x
      rw [← namesOf_cons_of_isLookedUp hdep.lookedUp, ← List.append_assoc] at hfree
      have hno : ∀ target, fs'.lookup (l ++ namesOf (name :: after) ++ [x]) ≠
          some (.link target) := by
        intro target
        rw [hfree]
        exact nofun
      obtain ⟨-, -, rfl⟩ := hroute.clear_of_resolve hk (by simpa using hx)
        (List.cons_ne_nil x []) (clear_singleton hk x).noLinks (.inr hno) hres
      exact absurd (hfree.symm.trans hentry) (by simp)

end PluginManager.FileSystem
