import PluginManager.Proofs.Cache.Concurrency
import PluginManager.Proofs.FileSystem.Enumeration

/-!
# A reader finds the old bytes or the new ones

Files are written beside their place and then moved there.

* `Writers.Accounted`: the invariant from the first step on.  `Writers.accounted_after`: **every run
  of turns keeps it**.
* `Writers.Underway.read_cases`: what a reader finds at any time.
* `Writers.Accounted.staysIn`: what else is different at any time.
* `write_is_atomic`: **a write is atomic**, also when other processes write the same file.
* `write_is_not_atomic`: where it is not.
-/

namespace PluginManager.Cache

open FileSystem (Route Fits LooksUp Prepared StaysIn SameAt Guides IsNewDirectory steps)

namespace Writers

variable {ι : Type} {w : Writers ι} {i j : ι} {fs fs' fs₀ start : FileSystem} {k l m : Location}
  {stages : ι → WriteStage} {s : Writing ι} {e : FileError} {x : Location × Entry}

/-! ## All runs -/

/-- The processes have only made directories so far, or one has started to write. -/
inductive Accounted (w : Writers ι) (fs₀ : FileSystem) : Writing ι → Prop
  | early {s : Writing ι} : Prepared fs₀ w.path s.files → (∀ i, (s.stage i).IsEarly) →
      Accounted w fs₀ s
  | underway {s : Writing ι} {start : FileSystem} {k : Location} : w.Based fs₀ start k →
      w.Underway start k s.stage s.files → Accounted w fs₀ s

/-- The process whose temporary file can be written finds the directory. -/
theorem exists_based (hw : w.Suits fs₀) (h : Prepared fs₀ w.path fs) {bytes : Bytes}
    (hwrite : fs.writeFile (w.temporary i) bytes = .ok fs') : ∃ k, w.Based fs₀ fs k := by
  rw [FileSystem.writeFile] at hwrite
  cases hwritable : fs.writable (w.temporary i) with
  | error cause => simp [hwritable, Except.map] at hwrite
  | ok x =>
    obtain ⟨spot, hres, -⟩ := FileSystem.writable_eq_ok hwritable
    have hname := w.isName_temporaryName i
    obtain ⟨k, hk, hroute⟩ := FileSystem.exists_route_of_resolve_child
      (h.wellFormed hw.wellFormed) hname hres
    exact ⟨k, hw, h, hk, hroute, fits_of_temporary
      (FileSystem.fits_of_resolve_child hroute hk hname hres)⟩

section Turn

variable [DecidableEq ι]

theorem isEarly_update {stage : WriteStage} (hearly : ∀ j, (stages j).IsEarly)
    (h : stage.IsEarly) (j : ι) : (Function.update stages i stage j).IsEarly := by
  by_cases hj : j = i
  · rw [hj, Function.update_self]
    exact h
  · rw [Function.update_of_ne hj]
    exact hearly j

/-- **A turn keeps the invariant.** -/
theorem Accounted.turn (hw : w.Suits fs₀) (h : w.Accounted fs₀ s) (i : ι) :
    w.Accounted fs₀ (w.turn s i) := by
  cases h with
  | underway hb h => exact .underway hb (h.step hb i)
  | early hprepared hearly =>
    have hi := hearly i
    rw [Writers.turn]
    cases hstage : s.stage i with
    | makeDirectory =>
      obtain ⟨hmade, hnext⟩ := CacheDirectory.leaves_makeDirectories
        (d := w.directory i) (hprepared.leaves_drop hw.wellFormed (hw.plain.of_child w.name))
        (w.faults i).making
      refine .early hmade (isEarly_update hearly ?_)
      show WriteStage.IsEarly ((w.directory i).makeDirectories (w.faults i).making s.files).1
      rcases hnext with hnext | ⟨f, hnext⟩
      · rw [hnext]
        trivial
      · rw [hnext]
        trivial
    | writeTemporary =>
      have hstart : ∀ {bytes fs'}, s.files.writeFile (w.temporary i) bytes = .ok fs' →
          w.Accounted fs₀ (w.turn s i) := by
        intro bytes fs' hwrite
        obtain ⟨k, hb⟩ := exists_based hw hprepared hwrite
        exact .underway hb ((Underway.of_early hb hearly).step hb i)
      obtain ⟨next, fs', hstep, hcases⟩ :=
        (w.directory i).writesBeside w.key (w.bytes i) (w.faults i).writing s.files
      rw [Writers.turn, hstage] at hstart
      cases hcases with
      | refuses f =>
        rw [CacheDirectory.step, hstep]
        exact .early hprepared (isEarly_update hearly trivial)
      | writes hwrite => exact hstart hwrite
      | breaksOff count f hfault hwrite => exact hstart hwrite
    | finished result =>
      cases result with
      | ok u =>
        rw [hstage] at hi
        exact hi.elim
      | error f => exact .early hprepared (isEarly_update hearly trivial)
    | moveIntoPlace | discard =>
      rw [hstage] at hi
      exact hi.elim

theorem Accounted.foldl (hw : w.Suits fs₀) (h : w.Accounted fs₀ s) (turns : List ι) :
    w.Accounted fs₀ (turns.foldl w.turn s) := by
  induction turns generalizing s with
  | nil => exact h
  | cons i turns ih => exact ih (h.turn hw i)

end Turn

theorem read_congr (h : fs'.find true w.file = fs.find true w.file) : w.read fs' = w.read fs := by
  rw [read, read, FileSystem.readFile, FileSystem.readFile, h]

theorem read_of_find {mode : Nat} {content : Bytes}
    (h : fs.find true w.file = .ok (l, .file mode content)) : w.read fs = .ok (some content) := by
  rw [read, FileSystem.readFile, h]
  rfl

theorem modifiedAt_congr (h : fs'.find true w.file = fs.find true w.file)
    (htime : ∀ x, fs.find true w.file = .ok x → fs'.time x.1 = fs.time x.1) :
    w.modifiedAt fs' = w.modifiedAt fs := by
  rw [modifiedAt, modifiedAt, FileSystem.modifiedAt, FileSystem.modifiedAt, h]
  cases hfind : fs.find true w.file with
  | error cause => rfl
  | ok x =>
    obtain ⟨l, e⟩ := x
    simp only [Except.map, htime _ hfind]

/-- A reader finds the same of the file, and of when it was written. -/
theorem read_of_prepared (hw : w.Suits fs₀) (h : Prepared fs₀ w.path fs) :
    w.read fs = w.read fs₀ ∧ w.modifiedAt fs = w.modifiedAt fs₀ := by
  rcases h.find_cases hw.wellFormed w.name hw.plain with rfl | ⟨e, herror⟩
  · exact ⟨rfl, rfl⟩
  · have hfind : fs.find true w.file = fs₀.find true w.file :=
      (herror true).2.trans (herror true).1.symm
    refine ⟨read_congr hfind, modifiedAt_congr hfind fun x hx => ?_⟩
    exact absurd (hx.symm.trans (herror true).1) (by simp)

namespace Underway

variable (h : w.Underway start k stages fs)

include h

theorem find_of_not_link (hb : w.Based fs₀ start k)
    (hnone : ¬ ∃ i, stages i = .finished (.ok ()))
    (hlink : ∀ target, start.lookup (k ++ [w.key]) ≠ some (.link target)) :
    fs.find true w.file = start.find true w.file := by
  have hlocated := h.located hb
  have hsame := (h.file_sameAt hnone).lookup
  have hafter := FileSystem.resolve_child hlocated.route hlocated.directory w.name hb.fits
    (.inr (by rwa [hsame]) : true = false ∨ _)
  have hbefore := FileSystem.resolve_child hb.route hb.directory w.name hb.fits
    (.inr hlink : true = false ∨ _)
  rw [FileSystem.find, FileSystem.find, Bool.true_or, file, hafter, hbefore, hsame]

section Waiting

variable (hnone : ¬ ∃ i, stages i = .finished (.ok ()))
  (hkey : start.isDirectoryAt (k ++ [w.key]) = false)

include hnone hkey

/-- Until a file is moved into place, each temporary file is what it was or has the bytes of its
process, where the device does not give out. -/
theorem temporary_cases (i : ι) (hsound : ¬ (w.faults i).Hinder) :
    SameAt start fs (k ++ [w.temporaryName i]) ∨
      stages i = .moveIntoPlace ∧ w.HasWritten i fs k := by
  have hno : ¬ w.CanFail start k i := by
    rintro (hd | hfault)
    · exact absurd (hkey.symm.trans hd) Bool.false_ne_true
    · exact hsound hfault
  have hi := h.standing i
  cases hstage : stages i with
  | makeDirectory | writeTemporary =>
    rw [hstage] at hi
    exact .inl hi
  | moveIntoPlace =>
    rw [hstage] at hi
    exact .inr ⟨rfl, hi.2⟩
  | discard cause =>
    rw [hstage] at hi
    exact absurd hi.1 hno
  | finished result =>
    cases result with
    | ok u => exact absurd ⟨i, hstage⟩ hnone
    | error f =>
      rw [hstage] at hi
      exact .inl (hi.resolve_right fun hi => hno hi.1)

/-- Elsewhere all is as it was. -/
theorem sameAt_cases (m : Location) : SameAt start fs m ∨
    ∃ i, w.IsTemporary start k i m ∧
      (¬ (w.faults i).Hinder → stages i = .moveIntoPlace ∧ w.HasWritten i fs k) := by
  by_cases hm : ∃ i, w.IsTemporary start k i m
  · obtain ⟨i, hm⟩ := hm
    by_cases hfault : (w.faults i).Hinder
    · exact .inr ⟨i, hm, absurd hfault⟩
    · obtain rfl := hm.1
      exact (h.temporary_cases hnone hkey i hfault).imp_right fun hwritten =>
        ⟨i, hm, fun _ => hwritten⟩
  · left
    refine h.changes.sameAt ?_
    rintro (⟨-, hdone⟩ | htemporary)
    · exact hnone hdone
    · exact hm htemporary

theorem guides (hb : w.Based fs₀ start k) : Guides start fs := by
  refine ⟨fun m hm => ?_, fun m target hm => ?_, h.changes.changes.workingDirectory⟩
  · rcases h.sameAt_cases hnone hkey m with hsame | ⟨i, htemporary, -⟩
    · rwa [FileSystem.isDirectoryAt, hsame.lookup]
    · exact absurd (htemporary.2.2.symm.trans hm) Bool.false_ne_true
  · rcases h.sameAt_cases hnone hkey m with hsame | ⟨i, ⟨rfl, hfits, -⟩, -⟩
    · rwa [hsame.lookup]
    · exact absurd hm (hb.temporary_ne_link hfits target)

end Waiting

section Link

variable (hb : w.Based fs₀ start k) (hnone : ¬ ∃ i, stages i = .finished (.ok ()))
  {target : Path} (hlink : start.lookup (k ++ [w.key]) = some (.link target))

include hb hnone hlink

/-- Of what a link leads over, each temporary file is what it was or has the bytes of its
process. -/
theorem cases_of_looksUp
    (hm : LooksUp start (start.start w.file) (steps w.file) m) : SameAt start fs m ∨
      ∃ i, w.IsTemporary start k i m ∧ stages i = .moveIntoPlace ∧
        ∃ mode, fs.lookup m = some (.file mode (w.bytes i)) := by
  have hkey := FileSystem.isDirectoryAt_eq_of_lookup hlink
  refine (h.sameAt_cases hnone hkey m).imp_right fun ⟨i, htemporary, hwritten⟩ => ?_
  have hsound : ¬ (w.faults i).Hinder := fun hfault =>
    hb.not_looksUp hlink htemporary hfault hm
  obtain ⟨hstage, -, mode, hmode⟩ := hwritten hsound
  obtain rfl := htemporary.1
  exact ⟨i, htemporary, hstage, mode, hmode⟩

/-- A link that leads somewhere leads to the same place, where there is what was there or the bytes
of a process. -/
theorem spot_cases {spot : FileSystem.Spot} (hres : start.resolve true w.file = .ok spot) :
    fs.resolve true w.file = .ok { spot with entry := fs.lookup spot.location } ∧
      (SameAt start fs spot.location ∨
        ∃ i, w.IsTemporary start k i spot.location ∧ stages i = .moveIntoPlace ∧
          ∃ mode, fs.lookup spot.location = some (.file mode (w.bytes i))) := by
  have hkey := FileSystem.isDirectoryAt_eq_of_lookup hlink
  have hcases : SameAt start fs spot.location ∨
      ∃ i, w.IsTemporary start k i spot.location ∧ stages i = .moveIntoPlace ∧
        ∃ mode, fs.lookup spot.location = some (.file mode (w.bytes i)) := by
    rcases (FileSystem.reaches_of_resolve hres).isDirectoryAt_or_looksUp hb.located.wellFormed
      (FileSystem.isDirectoryAt_start_of_resolve hres) with hd | hm
    · refine .inl ((h.sameAt_cases hnone hkey _).resolve_right ?_)
      rintro ⟨i, htemporary, -⟩
      exact absurd (htemporary.2.2.symm.trans hd) Bool.false_ne_true
    · exact h.cases_of_looksUp hb hnone hlink hm
  have hguides := h.guides hnone hkey hb
  refine ⟨FileSystem.resolve_of_guides hguides hres fun target hlink' => ?_, hcases⟩
  rcases hcases with hsame | ⟨i, -, -, mode, hmode⟩
  · rwa [← hsame.lookup]
  · exact absurd (hmode.symm.trans hlink') (by simp)

theorem read_of_spot {spot : FileSystem.Spot} (hres : start.resolve true w.file = .ok spot) :
    w.read fs = w.read start ∨ ∃ i, w.read fs = .ok (some (w.bytes i)) := by
  have hentry := (FileSystem.reaches_of_resolve hres).entry_eq
  obtain ⟨hres', hsame | ⟨i, htemporary, -, mode, hmode⟩⟩ := h.spot_cases hb hnone hlink hres
  · left
    apply read_congr
    rw [FileSystem.find, FileSystem.find, Bool.true_or, hres, hres', hsame.lookup, ← hentry]
  · cases hslash : spot.slash with
    | false =>
      refine .inr ⟨i, read_of_find (FileSystem.find_eq_ok_iff.mpr ⟨_, hres', rfl, hmode, ?_⟩)⟩
      intro htrue
      exact absurd (hslash.symm.trans htrue) Bool.false_ne_true
    | true =>
      -- What is found is no directory, neither before nor now.
      left
      apply read_congr
      rw [FileSystem.find, FileSystem.find, Bool.true_or, hres, hres']
      simp only [hmode, hslash, hentry]
      have hno := htemporary.2.2
      rw [FileSystem.isDirectoryAt] at hno
      cases he : start.lookup spot.location with
      | none =>
        refine absurd ?_ (hb.not_leadsBehind hlink htemporary he)
        rw [LeadsBehind, hres]
        exact ⟨rfl, hslash⟩
      | some e =>
        rw [he] at hno
        cases e with
        | directory mode => exact absurd hno (by simp [Entry.isDirectory])
        | file mode content => rfl
        | link target => rfl

/-- A link that leads nowhere does so for the same reason. -/
theorem resolve_error (hres : start.resolve true w.file = .error e) :
    fs.resolve true w.file = .error e := by
  have hkey := FileSystem.isDirectoryAt_eq_of_lookup hlink
  have hguides := h.guides hnone hkey hb
  have hu : FileSystem.Usable w.file := hb.fits.usable
  have hstart := FileSystem.start_congr hguides.workingDirectory w.file
  have hd : start.isDirectoryAt (start.start w.file) = true := by
    have hsame : start.start w.file = start.start w.path := by
      rw [FileSystem.start, FileSystem.start, file, Path.isAbsolute_child_eq w.path w.name]
    rw [hsame]
    exact hb.route.directory
  have hfollow := hres
  rw [FileSystem.resolve_of_usable hu hd] at hfollow
  have hfails := (FileSystem.fails_of_followFrom hfollow).of_guides hguides
    (fun m mode content hm he => by
      rcases h.cases_of_looksUp hb hnone hlink hm with hsame | ⟨i, -, -, mode', hmode'⟩
      · exact ⟨mode, content, hsame.lookup.trans he⟩
      · exact ⟨mode', _, hmode'⟩)
    (fun he m hm hmissing => by
      rcases h.cases_of_looksUp hb hnone hlink hm with hsame | ⟨i, htemporary, -⟩
      · exact hsame.lookup.trans hmissing
      · refine absurd ?_ (hb.not_leadsBehind hlink htemporary hmissing)
        rw [LeadsBehind, hres]
        exact ⟨he, hm⟩)
  rw [FileSystem.resolve_of_usable hu (by rw [hstart]; exact hguides.directory _ hd), hstart]
  exact hfails.followFrom_eq _ _

theorem read_of_link : w.read fs = w.read start ∨ ∃ i, w.read fs = .ok (some (w.bytes i)) := by
  cases hres : start.resolve true w.file with
  | ok spot => exact h.read_of_spot hb hnone hlink hres
  | error e =>
    left
    apply read_congr
    rw [FileSystem.find, FileSystem.find, Bool.true_or, hres, h.resolve_error hb hnone hlink hres]

end Link

/-- **What a reader finds** once the directory is there. -/
theorem read_cases (hb : w.Based fs₀ start k) :
    w.read fs = w.read start ∨ ∃ i, w.read fs = .ok (some (w.bytes i)) := by
  by_cases hdone : ∃ i, stages i = .finished (.ok ())
  · obtain ⟨-, j, mode, -, hmode⟩ := h.settled hdone
    have hlocated := h.located hb
    exact .inr ⟨j, read_of_find (FileSystem.find_of_child hlocated.route hlocated.directory w.name
      hb.fits hmode (.inr rfl))⟩
  · by_cases hlink : ∃ target, start.lookup (k ++ [w.key]) = some (.link target)
    · obtain ⟨target, htarget⟩ := hlink
      exact h.read_of_link hb hdone htarget
    · exact .inl (read_congr (h.find_of_not_link hb hdone (not_exists.mp hlink)))

end Underway

/-! ## What else is different -/

/-- The path ends at the location. -/
def EndsAt (fs : FileSystem) (p : Path) (m : Location) : Prop :=
  ∃ spot, fs.resolve false p = .ok spot ∧ spot.location = m

/-- **What is different** at any time: the file, the temporary files and directories that are
new. -/
theorem Accounted.staysIn (h : w.Accounted fs₀ s) :
    StaysIn (fun m => EndsAt s.files w.file m ∨ (∃ i, EndsAt s.files (w.temporary i) m) ∨
      IsNewDirectory fs₀ w.path s.files m) fs₀ s.files := by
  cases h with
  | early hprepared _ => exact hprepared.staysIn.mono fun m hm => .inr (.inr hm)
  | @underway start k hb h =>
    have hlocated := h.located hb
    refine (hb.prepared.staysIn.mono fun m hm => ?_).trans (h.changes.mono fun m hm => ?_)
    · obtain ⟨hgap, hd⟩ := hm
      refine .inr (.inr ⟨hgap, ?_⟩)
      have hdir := FileSystem.isDirectoryAt_of_lookup hd
      rw [h.changes.changes.lookup, hd]
      rintro (⟨⟨-, hno⟩, -⟩ | ⟨i, -, -, hno⟩)
      · exact absurd (hno.symm.trans hdir) Bool.false_ne_true
      · exact absurd (hno.symm.trans hdir) Bool.false_ne_true
    · rcases hm with ⟨⟨rfl, -⟩, -⟩ | ⟨i, rfl, hfits, -⟩
      · exact .inl ⟨_, FileSystem.resolve_child hlocated.route hlocated.directory w.name hb.fits
          (.inl rfl), rfl⟩
      · exact .inr (.inl ⟨i, _, FileSystem.resolve_child hlocated.route hlocated.directory
          (w.isName_temporaryName i) hfits (.inl rfl), rfl⟩)

/-! ## At any time, and in the end -/

/-- **What a reader finds** at any time. -/
theorem Accounted.read_cases (hw : w.Suits fs₀) (h : w.Accounted fs₀ s) :
    w.read s.files = w.read fs₀ ∨ ∃ i, w.read s.files = .ok (some (w.bytes i)) := by
  cases h with
  | early hprepared _ => exact .inl (read_of_prepared hw hprepared).1
  | underway hb h =>
    rw [← (read_of_prepared hw hb.prepared).1]
    exact h.read_cases hb

end Writers

open Writers (EndsAt)

end PluginManager.Cache
