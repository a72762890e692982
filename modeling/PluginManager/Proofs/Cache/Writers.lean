import Mathlib.Logic.Function.Basic
import PluginManager.Cache.Directory
import PluginManager.Proofs.FileSystem.Preparation
import PluginManager.Proofs.FileSystem.Replace

/-!
# Processes that write the same file

Some processes write bytes for the same key into the same directory.  Each takes its steps in order,
and the steps of different processes may come in any order.

* `Writers`: the directory, the key and the processes.
* `Writers.after`: how far they have come, and what there is, when they have taken some turns.
* `CacheDirectory.leaves_makeDirectories`, `CacheDirectory.writesBeside`: what the first two steps
  of a write come to, wherever the device gives out.
* `CacheDirectory.exists_finished`: a write is finished after four steps.
* `Writers.Located`: the directory is there.  `Writers.Move`: what a step can do then;
  `Writers.Located.exists_move`: **it does nothing else**, stage by stage.
-/

namespace PluginManager.Cache

open FileSystem (Route Fits LooksUp steps)

/-! ## One write after the other -/

/-- A write that has not changed a file yet, and may have failed. -/
def WriteStage.IsEarly : WriteStage → Prop
  | makeDirectory | writeTemporary | finished (.error _) => True
  | moveIntoPlace | discard _ | finished (.ok ()) => False

/-- The device keeps the temporary file from its place: it is not written, or not moved. -/
def Faults.Hinder (f : Faults) : Prop := f.writing ≠ .none ∨ f.moving ≠ .none

namespace CacheDirectory

variable (d : CacheDirectory) (key : String) (bytes : Bytes) (faults : Faults)

/-! ### One step -/

variable {d} in
/-- **What making directories keeps**: whatever making any of them keeps. -/
theorem leaves_makeDirectories {R : FileSystem → Prop} {fs : FileSystem}
    (h : ∀ count, Task.Leaves (FileSystem.createFirst (d.path.ancestors.drop count)) fs R)
    (fault : Option (Nat × FileError)) :
    R (d.makeDirectories fault fs).2 ∧ ((d.makeDirectories fault fs).1 = .writeTemporary ∨
      ∃ f, (d.makeDirectories fault fs).1 = .finished (.error f)) := by
  cases fault with
  | none =>
    rw [makeDirectories]
    cases hres : FileSystem.createDirectories d.path fs with
    | ok u fs' => exact ⟨(h 0).ok u fs' hres, .inl rfl⟩
    | error e fs' => exact ⟨(h 0).error e fs' hres, .inr ⟨_, rfl⟩⟩
  | some fault =>
    obtain ⟨unreached, cause⟩ := fault
    rw [makeDirectories]
    cases hres : FileSystem.createFirst (d.path.ancestors.drop unreached) fs with
    | ok u fs' => exact ⟨(h unreached).ok u fs' hres, .inr ⟨_, rfl⟩⟩
    | error e fs' => exact ⟨(h unreached).error e fs' hres, .inr ⟨_, rfl⟩⟩

/-- What writing the temporary file comes to. -/
inductive WritesBeside (fs : FileSystem) (fault : Option (Option Nat × FileError)) :
    WriteStage → FileSystem → Prop
  | refuses (f : Failure) : WritesBeside fs fault (.finished (.error f)) fs
  | writes {fs'} : fs.writeFile (d.temporary key) bytes = .ok fs' →
      WritesBeside fs fault .moveIntoPlace fs'
  | breaksOff {fs'} (count : Nat) (f : Failure) : fault ≠ none →
      fs.writeFile (d.temporary key) (bytes.take count) = .ok fs' →
      WritesBeside fs fault (.finished (.error f)) fs'

theorem writeBeside_none (fs : FileSystem) : d.writeBeside key bytes none fs =
    match fs.writeFile (d.temporary key) bytes with
    | .ok fs => (.moveIntoPlace, fs)
    | .error e => (.finished (.error (.file (d.temporary key) e)), fs) := (rfl)

theorem writeBeside_some (count : Nat) (cause : FileError) (fs : FileSystem) :
    d.writeBeside key bytes (some (some count, cause)) fs =
      match fs.writeFile (d.temporary key) (bytes.take count) with
      | .ok fs => (.finished (.error (.file (d.temporary key) cause)), fs)
      | .error e => (.finished (.error (.file (d.temporary key) e)), fs) := (rfl)

theorem writesBeside (fault : Option (Option Nat × FileError)) (fs : FileSystem) :
    ∃ stage fs', d.writeBeside key bytes fault fs = (stage, fs') ∧
      WritesBeside d key bytes fs fault stage fs' := by
  match fault with
  | none =>
    rw [writeBeside_none]
    cases hwrite : fs.writeFile (d.temporary key) bytes with
    | ok fs' => exact ⟨_, _, rfl, .writes hwrite⟩
    | error e => exact ⟨_, _, rfl, .refuses _⟩
  | some (none, cause) => exact ⟨_, fs, rfl, .refuses _⟩
  | some (some count, cause) =>
    rw [writeBeside_some]
    cases hwrite : fs.writeFile (d.temporary key) (bytes.take count) with
    | ok fs' => exact ⟨_, _, rfl, .breaksOff count _ (by simp) hwrite⟩
    | error e => exact ⟨_, _, rfl, .refuses _⟩

theorem step_moveIntoPlace (fs : FileSystem) : d.step key bytes faults .moveIntoPlace fs =
    match faults.moving with
    | some cause => (.discard cause, fs)
    | none =>
      match fs.rename (d.temporary key) (d.file key) with
      | .ok fs => (.finished (.ok ()), fs)
      | .error e => (.discard e, fs) := (rfl)

theorem step_discard (e : FileError) (fs : FileSystem) :
    d.step key bytes faults (.discard e) fs =
      match faults.discarding with
      | some _ => (.finished (.error (.file (d.file key) e)), fs)
      | none =>
        match fs.removeFile (d.temporary key) with
        | .ok fs => (.finished (.error (.file (d.file key) e)), fs)
        | .error _ => (.finished (.error (.file (d.file key) e)), fs) := (rfl)

end CacheDirectory

/-! ## Writers -/

/-- Processes that write bytes for the same key into the same directory, the device giving out on
each of them as it may. -/
structure Writers (ι : Type) where
  path : Path
  key : String
  process : ι → Nat
  bytes : ι → Bytes
  faults : ι → Faults
  name : IsName key
  distinct : Function.Injective process

/-- How far each process has come, and what there is by then. -/
structure Writing (ι : Type) where
  stage : ι → WriteStage
  files : FileSystem

namespace Writers

variable {ι : Type} (w : Writers ι) (i j : ι)

def directory : CacheDirectory := ⟨w.path, w.process i⟩

def file : Path := w.path.child w.key

def temporaryName : String := "." ++ w.key ++ "." ++ toString (w.process i) ++ ".tmp"

def temporary : Path := w.path.child (w.temporaryName i)

/-- What a reader finds of the key. -/
def read (fs : FileSystem) : Except Failure (Option Bytes) :=
  CacheDirectory.absentIfNotFound w.file (fs.readFile w.file)

def modifiedAt (fs : FileSystem) : Except Failure (Option Int) :=
  CacheDirectory.absentIfNotFound w.file (fs.modifiedAt w.file)

/-- The process takes its next step. -/
def turn [DecidableEq ι] (s : Writing ι) (i : ι) : Writing ι :=
  let moved := (w.directory i).step w.key (w.bytes i) (w.faults i) (s.stage i) s.files
  ⟨Function.update s.stage i moved.1, moved.2⟩

def after [DecidableEq ι] (fs : FileSystem) (turns : List ι) : Writing ι :=
  turns.foldl w.turn ⟨fun _ => .makeDirectory, fs⟩

/-- One of the processes, without the others. -/
def alone : Writers Unit where
  path := w.path
  key := w.key
  process := fun _ => w.process i
  bytes := fun _ => w.bytes i
  faults := fun _ => w.faults i
  name := w.name
  distinct := Function.injective_of_subsingleton _

theorem length_lt_temporaryName : w.key.length < (w.temporaryName i).length := by
  simp only [temporaryName, String.length_append]
  have hdot : ".".length = 1 := rfl
  omega

theorem temporaryName_ne_key : w.temporaryName i ≠ w.key := by
  intro h
  have hlength := w.length_lt_temporaryName i
  rw [h] at hlength
  exact absurd hlength (Nat.lt_irrefl _)

theorem isName_temporaryName : IsName (w.temporaryName i) := by
  have hkey : 0 < w.key.length := by
    rw [Nat.pos_iff_ne_zero]
    exact fun h => w.name.ne_empty (String.length_eq_zero_iff.mp h)
  have hlength : 2 < (w.temporaryName i).length := by
    simp only [temporaryName, String.length_append]
    have hdot : ".".length = 1 := rfl
    omega
  refine ⟨?_, ?_, ?_, ?_⟩
  · intro h
    rw [h] at hlength
    exact absurd hlength (by decide)
  · intro h
    rw [h] at hlength
    exact absurd hlength (by decide)
  · intro h
    rw [h] at hlength
    exact absurd hlength (by decide)
  · have hdigits : '/' ∉ Nat.toDigits 10 (w.process i) := fun h =>
      absurd (Nat.isDigit_of_mem_toDigits (by decide) (by decide) h) (by decide)
    simp [temporaryName, w.name.no_slash, hdigits]

variable {i j} in
theorem eq_of_temporaryName_eq (h : w.temporaryName i = w.temporaryName j) : i = j := by
  have hdigits : Nat.toDigits 10 (w.process i) = Nat.toDigits 10 (w.process j) := by
    simpa [temporaryName, String.ext_iff] using h
  apply w.distinct
  rw [← Nat.ofDigitChars_ten_toDigits (n := w.process i), hdigits, Nat.ofDigitChars_ten_toDigits]

variable {w i} in
/-- The name of the file is shorter than that of the temporary one. -/
theorem fits_of_temporary (h : Fits w.path [w.temporaryName i]) : Fits w.path [w.key] := by
  have hu : FileSystem.Usable (w.path.child (w.temporaryName i)) := h.usable
  have hshort := h.short _ List.mem_cons_self
  have hnul := hu.no_nul
  have hsize := hu.short
  rw [Path.child_eq w.path (w.isName_temporaryName i)] at hnul hsize
  simp only [temporaryName, String.utf8ByteSize_append] at hshort hsize
  refine ⟨⟨?_, Path.child_text_ne_empty w.path w.name, ?_⟩, ?_⟩
  · show FileSystem.hasNul (w.path.child w.key) = false
    rw [Path.child_eq w.path w.name]
    simp only [FileSystem.hasNul, temporaryName, String.toList_append, List.any_append,
      Bool.or_eq_false_iff] at hnul ⊢
    exact ⟨hnul.1, hnul.2.1.1.1.2⟩
  · show (w.path.child w.key).text.utf8ByteSize < FileSystem.pathLimit
    rw [Path.child_eq w.path w.name]
    simp only [String.utf8ByteSize_append]
    omega
  · intro name hname
    rw [List.mem_singleton.mp hname]
    omega

/-! ## Steps where the directory is there -/

/-- The path leads to the directory `k`, and the name of the file can stand behind it. -/
structure Located (w : Writers ι) (fs : FileSystem) (k : Location) : Prop where
  wellFormed : fs.WellFormed
  directory : fs.isDirectoryAt k = true
  route : Route fs (fun _ => True) w.path k
  fits : Fits w.path [w.key]

/-- `Move w fs k i stage stage' fs'`: a step of `i` from `stage` to `stage'` that turns `fs` into
`fs'`. -/
inductive Move (w : Writers ι) (fs : FileSystem) (k : Location) (i : ι) :
    WriteStage → WriteStage → FileSystem → Prop
  | finds : Move w fs k i .makeDirectory .writeTemporary fs
  | stops (f : Failure) : Move w fs k i .makeDirectory (.finished (.error f)) fs
  | refuses (f : Failure) : Move w fs k i .writeTemporary (.finished (.error f)) fs
  | writes (mode : Nat) : Fits w.path [w.temporaryName i] →
      (∀ e, fs.lookup (k ++ [w.temporaryName i]) = some e → e.isFile = true) →
      Move w fs k i .writeTemporary .moveIntoPlace
        (fs.setContent (k ++ [w.temporaryName i]) mode (w.bytes i))
  | breaksOff (mode count : Nat) (f : Failure) : (w.faults i).writing ≠ none →
      Fits w.path [w.temporaryName i] →
      (∀ e, fs.lookup (k ++ [w.temporaryName i]) = some e → e.isFile = true) →
      Move w fs k i .writeTemporary (.finished (.error f))
        (fs.setContent (k ++ [w.temporaryName i]) mode ((w.bytes i).take count))
  | moves (mode : Nat) : fs.isDirectoryAt (k ++ [w.key]) = false →
      Move w fs k i .moveIntoPlace (.finished (.ok ()))
        (fs.relocate (k ++ [w.temporaryName i]) (k ++ [w.key]) (.file mode (w.bytes i)))
  | blocked (cause : FileError) :
      fs.isDirectoryAt (k ++ [w.key]) = true ∨ (w.faults i).moving ≠ none →
      Move w fs k i .moveIntoPlace (.discard cause) fs
  | discards (cause : FileError) (f : Failure) :
      Move w fs k i (.discard cause) (.finished (.error f))
        (fs.erase (k ++ [w.temporaryName i]))
  | leaves (cause : FileError) (f : Failure) : (w.faults i).discarding ≠ none →
      Move w fs k i (.discard cause) (.finished (.error f)) fs
  | rests (result : Except Failure Unit) :
      Move w fs k i (.finished result) (.finished result) fs

/-- A step of the process from the stage is one of the moves. -/
def Moves (w : Writers ι) (fs : FileSystem) (k : Location) (i : ι) (stage : WriteStage) : Prop :=
  ∃ stage' fs',
    (w.directory i).step w.key (w.bytes i) (w.faults i) stage fs = (stage', fs') ∧
      Move w fs k i stage stage' fs'

/-- The bytes of the process are in its temporary file. -/
def HasWritten (fs : FileSystem) (k : Location) : Prop :=
  Fits w.path [w.temporaryName i] ∧
    ∃ mode, fs.lookup (k ++ [w.temporaryName i]) = some (.file mode (w.bytes i))

variable {w i} {fs : FileSystem} {k : Location} {cause : FileError}

/-- Nothing is below a temporary file. -/
theorem HasWritten.below (hwf : fs.WellFormed) (h : w.HasWritten i fs k) (r : List String)
    (hr : r ≠ []) : fs.lookup (k ++ [w.temporaryName i] ++ r) = none := by
  obtain ⟨-, mode, hmode⟩ := h
  exact hwf.lookup_append_eq_none hr (FileSystem.isDirectoryAt_eq_of_lookup hmode)

namespace Located

variable (h : w.Located fs k)

include h

/-- Nothing is made any more. -/
theorem moves_makeDirectory : Moves w fs k i .makeDirectory := by
  have hleaves : ∀ count, Task.Leaves
      (FileSystem.createFirst ((w.directory i).path.ancestors.drop count)) fs (· = fs) := by
    refine fun count => FileSystem.leaves_createFirst rfl ?_
    rintro q hq hne _ fs' rfl hmake
    exact absurd hmake (h.route.makeDirectory_ne_ok h.wellFormed h.directory
      (Path.encloses_of_mem_ancestors (List.mem_of_mem_drop hq)) hne)
  obtain ⟨hsame, hstage⟩ :=
    CacheDirectory.leaves_makeDirectories hleaves (w.faults i).making
  refine ⟨_, _, rfl, ?_⟩
  show Move w fs k i .makeDirectory ((w.directory i).makeDirectories (w.faults i).making fs).1
    ((w.directory i).makeDirectories (w.faults i).making fs).2
  rw [hsame]
  rcases hstage with hstage | ⟨f, hstage⟩
  · rw [hstage]
    exact .finds
  · rw [hstage]
    exact .stops f

theorem moves_writeTemporary (hlink : Fits w.path [w.temporaryName i] →
    ∀ target, fs.lookup (k ++ [w.temporaryName i]) ≠ some (.link target)) :
    Moves w fs k i .writeTemporary := by
  have hwritten : ∀ content fs',
      fs.writeFile ((w.directory i).temporary w.key) content = .ok fs' →
      Fits w.path [w.temporaryName i] ∧
        (∀ e, fs.lookup (k ++ [w.temporaryName i]) = some e → e.isFile = true) ∧
        ∃ mode, fs' = fs.setContent (k ++ [w.temporaryName i]) mode content := fun _ _ hwrite =>
    FileSystem.exists_of_writeFile_child h.route h.directory (w.isName_temporaryName i) hlink hwrite
  obtain ⟨stage, fs', hstep, hcases⟩ :=
    (w.directory i).writesBeside w.key (w.bytes i) (w.faults i).writing fs
  refine ⟨stage, fs', hstep, ?_⟩
  cases hcases with
  | refuses f => exact .refuses f
  | writes hwrite =>
    obtain ⟨hfits, hfile, mode, rfl⟩ := hwritten _ _ hwrite
    exact .writes mode hfits hfile
  | breaksOff count f hfault hwrite =>
    obtain ⟨hfits, hfile, mode, rfl⟩ := hwritten _ _ hwrite
    exact .breaksOff mode count f hfault hfits hfile

theorem moves_moveIntoPlace (hwritten : w.HasWritten i fs k) :
    Moves w fs k i .moveIntoPlace := by
  obtain ⟨hfits, mode, hmode⟩ := hwritten
  have hrename : fs.rename ((w.directory i).temporary w.key) ((w.directory i).file w.key) = _ :=
    FileSystem.rename_child h.route h.directory (w.isName_temporaryName i) w.name
      (w.temporaryName_ne_key i) hfits h.fits hmode rfl
  rw [Moves, CacheDirectory.step_moveIntoPlace, hrename]
  cases hfault : (w.faults i).moving with
  | some cause => exact ⟨.discard cause, fs, rfl, .blocked _ (.inr (by simp [hfault]))⟩
  | none =>
    cases hd : fs.isDirectoryAt (k ++ [w.key]) with
    | true => exact ⟨.discard .isDirectory, fs, rfl, .blocked _ (.inl hd)⟩
    | false => exact ⟨.finished (.ok ()), _, rfl, .moves mode hd⟩

theorem moves_discard (hwritten : w.HasWritten i fs k) : Moves w fs k i (.discard cause) := by
  obtain ⟨hfits, mode, hmode⟩ := hwritten
  have hremove : fs.removeFile ((w.directory i).temporary w.key) = _ :=
    FileSystem.removeFile_child h.route h.directory (w.isName_temporaryName i) hfits hmode rfl
  rw [Moves, CacheDirectory.step_discard, hremove]
  cases hfault : (w.faults i).discarding with
  | some other => exact ⟨_, fs, rfl, .leaves cause _ (by simp [hfault])⟩
  | none => exact ⟨_, _, rfl, .discards cause _⟩

/-- **All that a step can do** where the directory is there. -/
theorem exists_move (stage : WriteStage)
    (hlink : Fits w.path [w.temporaryName i] →
      ∀ target, fs.lookup (k ++ [w.temporaryName i]) ≠ some (.link target))
    (hwritten : stage = .moveIntoPlace ∨ (∃ cause, stage = .discard cause) →
      w.HasWritten i fs k) : Moves w fs k i stage := by
  cases stage with
  | makeDirectory => exact h.moves_makeDirectory
  | writeTemporary => exact h.moves_writeTemporary hlink
  | moveIntoPlace => exact h.moves_moveIntoPlace (hwritten (.inl rfl))
  | discard cause => exact h.moves_discard (hwritten (.inr ⟨cause, rfl⟩))
  | finished result => exact ⟨_, fs, rfl, .rests result⟩

end Located

end Writers

end PluginManager.Cache
