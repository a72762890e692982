import PluginManager.Proofs.Cache.Writers

/-!
# Writers at the same time

Once one of the processes has written its temporary file, the directory is there, and from then on
nothing is different but the temporary files and the file of the key.

* `Writers.Suits`: what is asked of the file system before they start.
* `Writers.Based`: the directory is there, as the processes found or made it.
* `Writers.Standing`: what is known of a temporary file at each stage of its process.
* `Writers.Underway`: the invariant.  `Writers.Underway.step`: **every step keeps it**.
-/

namespace PluginManager.Cache.Writers

open FileSystem (Route Fits LooksUp Prepared StaysIn SameAt steps)

variable {ι : Type} {w : Writers ι} {i j : ι} {fs fs' fs₀ start : FileSystem} {k m : Location}
  {stages : ι → WriteStage} {stage next : WriteStage}

/-! ## Before the first step -/

/-- A path that asks for something behind `m`, and finds nothing if nothing is at `m`. -/
def LeadsBehind (fs : FileSystem) (p : Path) (m : Location) : Prop :=
  match fs.resolve true p with
  | .ok spot => spot.location = m ∧ spot.slash = true
  | .error e => e = .notFound ∧ LooksUp fs (fs.start p) (steps p) m

/-- Behind a missing name there are only names and single dots, and no temporary name is that of a
link.  If the name of the file is that of a link, the directory is not reached over this link, the
link leads to nothing behind a temporary name that is free, and not over a temporary name at all
where the device may keep the file of the process from its place. -/
structure Suits (w : Writers ι) (fs : FileSystem) : Prop where
  wellFormed : fs.WellFormed
  plain : fs.Plain w.file
  temporary : ∀ i l target, fs.find false (w.temporary i) ≠ .ok (l, .link target)
  apart : ∀ l target, fs.find false w.file = .ok (l, .link target) →
    ¬ LooksUp fs (fs.start w.path) (steps w.path) l
  free : ∀ l target, fs.find false w.file = .ok (l, .link target) → ∀ i spot,
    fs.resolve false (w.temporary i) = .ok spot → spot.entry = none →
      ¬ LeadsBehind fs w.file spot.location
  aside : ∀ l target, fs.find false w.file = .ok (l, .link target) → ∀ i spot,
    (w.faults i).Hinder → fs.resolve false (w.temporary i) = .ok spot →
      ¬ LooksUp fs (fs.start w.file) (steps w.file) spot.location

theorem Suits.alone (h : w.Suits fs) (i : ι) : (w.alone i).Suits fs :=
  ⟨h.wellFormed, h.plain, fun _ => h.temporary i, h.apart,
    fun l target hl _ => h.free l target hl i, fun l target hl _ => h.aside l target hl i⟩

/-! ## Where the directory is -/

/-- The file system `start` has the directory at `k`.  Unless it was there before, it was made. -/
structure Based (w : Writers ι) (fs₀ start : FileSystem) (k : Location) : Prop where
  suits : w.Suits fs₀
  prepared : Prepared fs₀ w.path start
  directory : start.isDirectoryAt k = true
  route : Route start (fun _ => True) w.path k
  fits : Fits w.path [w.key]

/-- The place of a temporary file, if it is not that of a directory. -/
def IsTemporary (w : Writers ι) (start : FileSystem) (k : Location) (i : ι) (m : Location) : Prop :=
  m = k ++ [w.temporaryName i] ∧ Fits w.path [w.temporaryName i] ∧ start.isDirectoryAt m = false

/-- The place of the file, if it is not that of a directory. -/
def IsFile (w : Writers ι) (start : FileSystem) (k m : Location) : Prop :=
  m = k ++ [w.key] ∧ start.isDirectoryAt m = false

namespace Based

variable (h : w.Based fs₀ start k)

include h

theorem located : w.Located start k :=
  ⟨h.prepared.wellFormed h.suits.wellFormed, h.directory, h.route, h.fits⟩

theorem temporary_ne_link (hfits : Fits w.path [w.temporaryName i]) (target : Path) :
    start.lookup (k ++ [w.temporaryName i]) ≠ some (.link target) := by
  intro hlink
  have hfind : start.find false (w.temporary i) = .ok (k ++ [w.temporaryName i], .link target) :=
    FileSystem.find_of_child h.route h.directory (w.isName_temporaryName i) hfits hlink (.inl rfl)
  obtain rfl := h.prepared.eq_of_find h.suits.wellFormed (w.isName_temporaryName i)
    (h.suits.plain.of_child w.name) hfind
  exact h.suits.temporary i _ _ hfind

/-- A link with the name of the file was there before. -/
theorem eq_of_link {target : Path} (hlink : start.lookup (k ++ [w.key]) = some (.link target)) :
    start = fs₀ ∧ fs₀.find false w.file = .ok (k ++ [w.key], .link target) := by
  have hfind : start.find false w.file = .ok (k ++ [w.key], .link target) :=
    FileSystem.find_of_child h.route h.directory w.name h.fits hlink (.inl rfl)
  obtain rfl := h.prepared.eq_of_find h.suits.wellFormed w.name (h.suits.plain.of_child w.name)
    hfind
  exact ⟨rfl, hfind⟩

theorem not_leadsBehind {target : Path}
    (hlink : start.lookup (k ++ [w.key]) = some (.link target)) (hm : w.IsTemporary start k i m)
    (hfree : start.lookup m = none) : ¬ LeadsBehind start w.file m := by
  obtain ⟨rfl, hfits, -⟩ := hm
  obtain ⟨rfl, hfind⟩ := h.eq_of_link hlink
  have hres := FileSystem.resolve_child h.route h.directory (w.isName_temporaryName i) hfits
    (.inl rfl : false = false ∨ _)
  exact h.suits.free _ _ hfind i _ hres hfree

/-- Where the device gives out, a link does not lead over the temporary file. -/
theorem not_looksUp {target : Path} (hlink : start.lookup (k ++ [w.key]) = some (.link target))
    (hm : w.IsTemporary start k i m) (hfault : (w.faults i).Hinder) :
    ¬ LooksUp start (start.start w.file) (steps w.file) m := by
  obtain ⟨rfl, hfits, -⟩ := hm
  obtain ⟨rfl, hfind⟩ := h.eq_of_link hlink
  have hres := FileSystem.resolve_child h.route h.directory (w.isName_temporaryName i) hfits
    (.inl rfl : false = false ∨ _)
  exact h.suits.aside _ _ hfind i _ hfault hres

/-- The path to the directory does not meet the files that are written. -/
theorem route_fixed :
    Route start (fun m => ¬ w.IsFile start k m ∧ ∀ i, ¬ w.IsTemporary start k i m) w.path k := by
  refine h.route.restrict h.directory (fun m hm => ?_) fun m target hm hlink => ?_
  · refine ⟨fun hfile => ?_, fun i htemporary => ?_⟩
    · exact absurd (hfile.2.symm.trans hm) Bool.false_ne_true
    · exact absurd (htemporary.2.2.symm.trans hm) Bool.false_ne_true
  · refine ⟨?_, ?_⟩
    · rintro ⟨rfl, -⟩
      obtain ⟨rfl, hfind⟩ := h.eq_of_link hlink
      exact h.suits.apart _ _ hfind hm
    · rintro i ⟨rfl, hfits, -⟩
      exact h.temporary_ne_link hfits target hlink

end Based

/-! ## Temporary files -/

/-- What can keep the process from moving its temporary file into place. -/
def CanFail (w : Writers ι) (start : FileSystem) (k : Location) (i : ι) : Prop :=
  start.isDirectoryAt (k ++ [w.key]) = true ∨ (w.faults i).Hinder

/-- The device gave out, and left the first of the bytes, or all, in the temporary file. -/
structure Leftover (w : Writers ι) (fs : FileSystem) (k : Location) (i : ι) : Prop where
  fault : (w.faults i).writing ≠ none ∨ (w.faults i).discarding ≠ none
  file : ∃ mode count,
    fs.lookup (k ++ [w.temporaryName i]) = some (.file mode ((w.bytes i).take count))

/-- What is known of the temporary file of a process at each stage. -/
def Standing (w : Writers ι) (start : FileSystem) (k : Location) (i : ι) (fs : FileSystem) :
    WriteStage → Prop
  | .makeDirectory | .writeTemporary => SameAt start fs (k ++ [w.temporaryName i])
  | .moveIntoPlace =>
    start.isDirectoryAt (k ++ [w.temporaryName i]) = false ∧ w.HasWritten i fs k
  | .discard _ =>
    w.CanFail start k i ∧
      start.isDirectoryAt (k ++ [w.temporaryName i]) = false ∧ w.HasWritten i fs k
  | .finished (.ok ()) => fs.lookup (k ++ [w.temporaryName i]) = none
  | .finished (.error _) =>
    SameAt start fs (k ++ [w.temporaryName i]) ∨
      w.CanFail start k i ∧ w.IsTemporary start k i (k ++ [w.temporaryName i]) ∧
        (fs.lookup (k ++ [w.temporaryName i]) = none ∨ w.Leftover fs k i)

theorem Standing.of_sameAt (h : w.Standing start k i fs stage)
    (hsame : SameAt fs fs' (k ++ [w.temporaryName i])) : w.Standing start k i fs' stage := by
  have hwritten : w.HasWritten i fs k → w.HasWritten i fs' k := fun ⟨hfits, mode, hmode⟩ =>
    ⟨hfits, mode, hsame.lookup.trans hmode⟩
  cases stage with
  | makeDirectory | writeTemporary => exact SameAt.trans h hsame
  | moveIntoPlace => exact ⟨h.1, hwritten h.2⟩
  | discard cause => exact ⟨h.1, h.2.1, hwritten h.2.2⟩
  | finished result =>
    cases result with
    | ok u => exact hsame.lookup.trans h
    | error f =>
      refine h.imp (·.trans hsame) fun ⟨hfail, hplace, hleft⟩ => ⟨hfail, hplace, ?_⟩
      refine hleft.imp hsame.lookup.trans fun ⟨hfault, mode, count, hmode⟩ =>
        ⟨hfault, mode, count, hsame.lookup.trans hmode⟩

theorem ne_temporary (w : Writers ι) (k : Location) (i : ι) :
    k ++ [w.key] ≠ k ++ [w.temporaryName i] := by
  simpa using (w.temporaryName_ne_key i).symm

theorem temporary_ne (w : Writers ι) (k : Location) (hij : j ≠ i) :
    k ++ [w.temporaryName j] ≠ k ++ [w.temporaryName i] := by
  simpa using fun heq => hij (w.eq_of_temporaryName_eq heq)

/-! ## The invariant -/

/-- The processes have come to the stages, the first of them having started to write in `start`. -/
structure Underway (w : Writers ι) (start : FileSystem) (k : Location) (stages : ι → WriteStage)
    (fs : FileSystem) : Prop where
  wellFormed : fs.WellFormed
  changes : StaysIn (fun m => (w.IsFile start k m ∧ ∃ i, stages i = .finished (.ok ())) ∨
    ∃ i, w.IsTemporary start k i m) start fs
  standing : ∀ i, w.Standing start k i fs (stages i)
  settled : (∃ i, stages i = .finished (.ok ())) → start.isDirectoryAt (k ++ [w.key]) = false ∧
    ∃ j mode, stages j = .finished (.ok ()) ∧
      fs.lookup (k ++ [w.key]) = some (.file mode (w.bytes j))

namespace Underway

/-- **At first** nothing is different. -/
theorem of_early (hb : w.Based fs₀ start k) (hearly : ∀ i, (stages i).IsEarly) :
    w.Underway start k stages start := by
  refine ⟨hb.located.wellFormed, .refl _ start, fun i => ?_, ?_⟩
  · have hsame : SameAt start start (k ++ [w.temporaryName i]) := ⟨rfl, fun _ => rfl⟩
    have hi := hearly i
    cases hstage : stages i with
    | makeDirectory | writeTemporary => exact hsame
    | moveIntoPlace | discard =>
      rw [hstage] at hi
      exact hi.elim
    | finished result =>
      cases result with
      | ok u =>
        rw [hstage] at hi
        exact hi.elim
      | error f => exact .inl hsame
  · rintro ⟨i, hi⟩
    have hearly := hearly i
    rw [hi] at hearly
    exact hearly.elim

variable (h : w.Underway start k stages fs)

include h

theorem located (hb : w.Based fs₀ start k) : w.Located fs k := by
  have hfixed := hb.route_fixed
  have hkeep : ∀ m, (¬ w.IsFile start k m ∧ ∀ i, ¬ w.IsTemporary start k i m) →
      ¬ ((w.IsFile start k m ∧ ∃ i, stages i = .finished (.ok ())) ∨
        ∃ i, w.IsTemporary start k i m) := by
    rintro m ⟨hfile, htemporary⟩ (hm | ⟨i, hm⟩)
    · exact hfile hm.1
    · exact htemporary i hm
  have hroute := hfixed.of_holds (h.changes.changes.holds hkeep) h.changes.changes.workingDirectory
  refine ⟨h.wellFormed, ?_, hroute.mono fun _ _ => trivial, hb.fits⟩
  rw [FileSystem.isDirectoryAt, h.changes.changes.lookup k (hkeep k hfixed.ends),
    ← FileSystem.isDirectoryAt, hb.directory]

theorem temporary_ne_link (hb : w.Based fs₀ start k) (hfits : Fits w.path [w.temporaryName i])
    (target : Path) : fs.lookup (k ++ [w.temporaryName i]) ≠ some (.link target) := by
  have hstart := hb.temporary_ne_link hfits target
  have hwritten : w.HasWritten i fs k →
      fs.lookup (k ++ [w.temporaryName i]) ≠ some (.link target) := by
    rintro ⟨-, mode, hmode⟩
    simp [hmode]
  have hi := h.standing i
  cases hstage : stages i with
  | makeDirectory | writeTemporary =>
    rw [hstage] at hi
    rwa [hi.lookup]
  | moveIntoPlace =>
    rw [hstage] at hi
    exact hwritten hi.2
  | discard cause =>
    rw [hstage] at hi
    exact hwritten hi.2.2
  | finished result =>
    rw [hstage] at hi
    cases result with
    | ok u =>
      have hnone : fs.lookup (k ++ [w.temporaryName i]) = none := hi
      simp [hnone]
    | error f =>
      rcases hi with hsame | ⟨-, -, hnone | ⟨-, mode, count, hmode⟩⟩
      · rwa [hsame.lookup]
      · simp [hnone]
      · simp [hmode]

/-- If no process has moved its file into place, the old one is there. -/
theorem file_sameAt (hnone : ¬ ∃ i, stages i = .finished (.ok ())) :
    SameAt start fs (k ++ [w.key]) := by
  refine h.changes.sameAt ?_
  rintro (⟨-, hdone⟩ | ⟨i, heq, -⟩)
  · exact hnone hdone
  · exact w.ne_temporary k i heq

variable [DecidableEq ι]

/-- A step that changes at most the temporary file of its process. -/
theorem advance (hstays : StaysIn (w.IsTemporary start k i) fs fs') (hwf : fs'.WellFormed)
    (hstanding : w.Standing start k i fs' next)
    (hdone : next = .finished (.ok ()) ↔ stages i = .finished (.ok ())) :
    w.Underway start k (Function.update stages i next) fs' := by
  have hdone' : ∀ j, Function.update stages i next j = .finished (.ok ()) ↔
      stages j = .finished (.ok ()) := by
    intro j
    by_cases hj : j = i
    · rw [hj, Function.update_self, hdone]
    · rw [Function.update_of_ne hj]
  refine ⟨hwf, ?_, fun j => ?_, fun hex => ?_⟩
  · refine (h.changes.mono fun m hm => ?_).trans (hstays.mono fun m hm => .inr ⟨i, hm⟩)
    exact hm.imp_left fun ⟨hfile, j, hj⟩ => ⟨hfile, j, (hdone' j).mpr hj⟩
  · by_cases hj : j = i
    · rw [hj, Function.update_self]
      exact hstanding
    · rw [Function.update_of_ne hj]
      exact (h.standing j).of_sameAt (hstays.sameAt fun hm => w.temporary_ne k hj hm.1)
  · obtain ⟨j, hj⟩ := hex
    obtain ⟨hfree, j, mode, hj, hmode⟩ := h.settled ⟨j, (hdone' j).mp hj⟩
    refine ⟨hfree, j, mode, (hdone' j).mpr hj, ?_⟩
    rw [hstays.changes.lookup _ fun hm => w.ne_temporary k i hm.1, hmode]

/-- The step that writes the temporary file, or some of it. -/
theorem wrote (hb : w.Based fs₀ start k) (hsame : SameAt start fs (k ++ [w.temporaryName i]))
    (hfits : Fits w.path [w.temporaryName i])
    (hfile : ∀ e, fs.lookup (k ++ [w.temporaryName i]) = some e → e.isFile = true)
    (mode : Nat) (content : Bytes)
    (hstanding : w.IsTemporary start k i (k ++ [w.temporaryName i]) →
      (fs.setContent (k ++ [w.temporaryName i]) mode content).lookup (k ++ [w.temporaryName i]) =
        some (.file mode content) →
      w.Standing start k i (fs.setContent (k ++ [w.temporaryName i]) mode content) next)
    (hdone : next = .finished (.ok ()) ↔ stages i = .finished (.ok ())) :
    w.Underway start k (Function.update stages i next)
      (fs.setContent (k ++ [w.temporaryName i]) mode content) := by
  have hstart : start.isDirectoryAt (k ++ [w.temporaryName i]) = false := by
    rw [FileSystem.isDirectoryAt, ← hsame.lookup]
    exact FileSystem.isDirectoryAt_eq_false_of_file hfile
  have hplace : FileSystem.IsPlace fs (k ++ [w.temporaryName i]) :=
    ⟨k, _, rfl, w.isName_temporaryName i, (h.located hb).directory⟩
  refine h.advance ?_ (FileSystem.wellFormed_setContent hplace hfile h.wellFormed mode _)
    (hstanding ⟨rfl, hfits, hstart⟩ ?_) hdone
  · refine ((FileSystem.staysIn_insert fs hplace.ne_nil _).trans
      (FileSystem.staysIn_touchAt _ _ _)).mono ?_
    rintro m rfl
    exact ⟨rfl, hfits, hstart⟩
  · rw [FileSystem.lookup_setContent fs hplace.ne_nil, if_pos rfl]

/-- The step that moves the temporary file into place. -/
theorem moved (hb : w.Based fs₀ start k) (hstage : stages i = .moveIntoPlace) (mode : Nat)
    (hd : fs.isDirectoryAt (k ++ [w.key]) = false) :
    w.Underway start k (Function.update stages i (.finished (.ok ())))
      (fs.relocate (k ++ [w.temporaryName i]) (k ++ [w.key]) (.file mode (w.bytes i))) := by
  have hlocated := h.located hb
  have hi := h.standing i
  rw [hstage] at hi
  obtain ⟨htemporary, hwritten⟩ := hi
  have hstart : start.isDirectoryAt (k ++ [w.key]) = false := by
    by_cases hdone : ∃ i, stages i = .finished (.ok ())
    · exact (h.settled hdone).1
    · rwa [FileSystem.isDirectoryAt, (h.file_sameAt hdone).lookup, ← FileSystem.isDirectoryAt] at hd
  have hstays := FileSystem.staysIn_relocate FileSystem.append_singleton_ne_nil
    FileSystem.append_singleton_ne_nil (.file mode (w.bytes i)) (hwritten.below h.wellFormed)
    (m := k ++ [w.key])
  have hself : Function.update stages i (.finished (.ok ())) i = .finished (.ok ()) :=
    Function.update_self i _ _
  refine ⟨FileSystem.wellFormed_relocate h.wellFormed hlocated.directory w.name
    (w.temporaryName_ne_key i) hd _, ?_, fun j => ?_, fun _ => ⟨hstart, i, mode, hself, ?_⟩⟩
  · refine (h.changes.mono fun m hm => ?_).trans (hstays.mono fun m hm => ?_)
    · exact hm.imp_left (And.imp_right fun _ => ⟨i, hself⟩)
    · rcases hm with rfl | rfl
      · exact .inr ⟨i, rfl, hwritten.1, htemporary⟩
      · exact .inl ⟨⟨rfl, hstart⟩, i, hself⟩
  · by_cases hj : j = i
    · rw [hj, hself]
      show FileSystem.lookup _ _ = none
      rw [FileSystem.lookup_relocate FileSystem.append_singleton_ne_nil
        FileSystem.append_singleton_ne_nil, if_neg (w.ne_temporary k i).symm, if_pos]
      exact FileSystem.isWithin_iff.mpr (List.prefix_refl _)
    · rw [Function.update_of_ne hj]
      refine (h.standing j).of_sameAt (hstays.sameAt ?_)
      rintro (heq | heq)
      · exact w.temporary_ne k hj heq
      · exact w.ne_temporary k j heq.symm
  · rw [FileSystem.lookup_relocate FileSystem.append_singleton_ne_nil
      FileSystem.append_singleton_ne_nil, if_pos rfl]

/-- **Every step keeps the invariant.** -/
theorem step (hb : w.Based fs₀ start k) (i : ι) :
    w.Underway start k
      (Function.update stages i
        ((w.directory i).step w.key (w.bytes i) (w.faults i) (stages i) fs).1)
      ((w.directory i).step w.key (w.bytes i) (w.faults i) (stages i) fs).2 := by
  have hi := h.standing i
  have hlocated := h.located hb
  obtain ⟨next, fs', hstep, hmove⟩ := hlocated.exists_move (i := i) (stages i)
    (fun hfits => h.temporary_ne_link hb hfits) (by
      rintro (hstage | ⟨cause, hstage⟩)
      · rw [hstage] at hi
        exact hi.2
      · rw [hstage] at hi
        exact hi.2.2)
  rw [hstep]
  generalize hstage : stages i = stage at hmove hi
  cases hmove with
  | finds => exact h.advance (.refl _ fs) h.wellFormed hi (by simp [hstage])
  | stops f | refuses f =>
    exact h.advance (.refl _ fs) h.wellFormed (.inl hi) (by simp [hstage])
  | writes mode hfits hfile =>
    exact h.wrote hb hi hfits hfile mode _
      (fun htemporary hmode => ⟨htemporary.2.2, hfits, mode, hmode⟩) (by simp [hstage])
  | breaksOff mode count f hfault hfits hfile =>
    exact h.wrote hb hi hfits hfile mode _
      (fun htemporary hmode => .inr ⟨.inr (.inl hfault), htemporary,
        .inr ⟨.inl hfault, mode, count, hmode⟩⟩) (by simp [hstage])
  | moves mode hd => exact h.moved hb hstage mode hd
  | blocked cause hblocked =>
    refine h.advance (.refl _ fs) h.wellFormed ⟨?_, hi⟩ (by simp [hstage])
    rcases hblocked with hd | hfault
    · -- Where there is a directory in the way, no process has moved its file there.
      refine .inl ?_
      by_cases hdone : ∃ i, stages i = .finished (.ok ())
      · obtain ⟨-, j, mode, -, hmode⟩ := h.settled hdone
        exact absurd (FileSystem.isDirectory_of_lookup hd hmode) (by simp [Entry.isDirectory])
      · rwa [FileSystem.isDirectoryAt, (h.file_sameAt hdone).lookup,
          ← FileSystem.isDirectoryAt] at hd
    · exact .inr (.inr hfault)
  | discards cause f =>
    obtain ⟨hfail, htemporary, hwritten⟩ := hi
    have hne : k ++ [w.temporaryName i] ≠ [] := FileSystem.append_singleton_ne_nil
    have hwf := FileSystem.wellFormed_erase h.wellFormed hne
    refine h.advance ?_ hwf (.inr ⟨hfail, ⟨rfl, hwritten.1, htemporary⟩, .inl ?_⟩)
      (by simp [hstage])
    · refine (FileSystem.staysIn_erase_leaf hne (hwritten.below h.wellFormed)).mono ?_
      rintro m rfl
      exact ⟨rfl, hwritten.1, htemporary⟩
    · exact FileSystem.lookup_erase_of_within hne (List.prefix_refl _)
  | leaves cause f hfault =>
    obtain ⟨hfail, htemporary, hfits, mode, hmode⟩ := hi
    refine h.advance (.refl _ fs) h.wellFormed ?_ (by simp [hstage])
    exact .inr ⟨hfail, ⟨rfl, hfits, htemporary⟩,
      .inr ⟨.inr hfault, mode, (w.bytes i).length, by rw [hmode, List.take_length]⟩⟩
  | rests result => exact h.advance (.refl _ fs) h.wellFormed hi (by simp [hstage])

end Underway

end PluginManager.Cache.Writers
