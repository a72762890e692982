import PluginManager.Proofs.Cache.Call

/-!
# Calls step by step

A call over a store that it shares takes one step at a time, and any time may pass before each.

* `Turn`: the circumstances of one step.  Its store call or its fetch may fail.
* `Stage`: how far a call has come, and what is left of it.
* `Move`: what one step can do.  `exists_move`: **it does nothing else**, stage by stage.
-/

namespace PluginManager.Cache

/-! ## Turns -/

/-- The two calls. -/
inductive Side where
  | left
  | right
  deriving DecidableEq, Repr

def Side.other : Side → Side
  | left => right
  | right => left

theorem Side.other_ne (s : Side) : s.other ≠ s := by cases s <;> decide

theorem Side.eq_other {s s' : Side} (h : s' ≠ s) : s' = s.other := by
  cases s <;> cases s' <;> first | rfl | exact absurd rfl h

/-- One step of one of the calls, some time after the step before it.  The store call or the fetch
that the step consists of may fail. -/
structure Turn where
  side : Side
  wait : Int
  faults : List Fault
  fetch : Fetch

def Turn.store (t : Turn) : Store Memory := Memory.store.withFaults t.faults

/-- The file that a step writes. -/
def Procedure.written? {α σ : Type} (store : Store σ) (m : σ) : Procedure α → Option String
  | write key bytes _ => if (store.write m key bytes).1.isOk then some key else none
  | _ => none

/-! ## Stages -/

/-- How far a call has come. -/
inductive Stage where
  | asking
  | dating
  | aging (modified : Int)
  | fetching
  | storing (body : Bytes)
  | marking
  | reading
  | ended (result : Except Failure Schema)

namespace Stage

/-- What is left of a call. -/
def procedure (maxAge : Nat) (url version : String) : Stage → Procedure Schema
  | asking => prepareVersion maxAge url version
  | dating =>
    .modifiedAt schemaKey fun
      | none => refresh url version
      | some modified =>
        .now fun now => if isFresh now modified maxAge then useStored else refresh url version
  | aging modified =>
    .now fun now => if isFresh now modified maxAge then useStored else refresh url version
  | fetching => refresh url version
  | storing body => .write schemaKey body (.write versionKey (Text.encode version) useStored)
  | marking => .write versionKey (Text.encode version) useStored
  | reading => useStored
  | ended (.ok schema) => .done schema
  | ended (.error f) => .fail f

/-- A call that writes nothing any more. -/
def IsPastWriting : Stage → Prop
  | reading | ended _ => True
  | _ => False

theorem eq_of_procedure_eq_done {maxAge : Nat} {url version : String} {stage : Stage}
    {schema : Schema} (h : stage.procedure maxAge url version = .done schema) :
    stage = ended (.ok schema) := by
  cases stage with
  | ended result =>
    cases result with
    | ok schema' =>
      obtain rfl := Procedure.done.inj h
      rfl
    | error f => cases h
  | asking | dating | aging | fetching | storing | marking | reading => cases h

end Stage

/-- `Move maxAge url version fetch m stage stage' m' written`: a step from `stage` to `stage'` that
turns the store `m` into `m'` and has written the file. -/
inductive Move (maxAge : Nat) (url version : String) (fetch : Fetch) (m : Memory) :
    Stage → Stage → Memory → Option String → Prop
  | fails {stage} (f : Failure) : (∀ result, stage ≠ .ended result) →
      Move maxAge url version fetch m stage (.ended (.error f)) m none
  | unmarked : (∀ marker, m.find? versionKey = some marker →
        isMarkedAs version marker.bytes = false) →
      Move maxAge url version fetch m .asking .fetching m none
  | marked {marker} : m.find? versionKey = some marker → isMarkedAs version marker.bytes = true →
      Move maxAge url version fetch m .asking .dating m none
  | missing : m.find? schemaKey = none → Move maxAge url version fetch m .dating .fetching m none
  | dated {document} : m.find? schemaKey = some document →
      Move maxAge url version fetch m .dating (.aging document.modified) m none
  | old {modified} : isFresh m.clock modified maxAge = false →
      Move maxAge url version fetch m (.aging modified) .fetching m none
  | young {modified} : isFresh m.clock modified maxAge = true →
      Move maxAge url version fetch m (.aging modified) .reading m none
  | fetches {body} : fetch url = .ok body →
      Move maxAge url version fetch m .fetching (.storing body) m none
  | stores {body} : Move maxAge url version fetch m (.storing body) .marking
      (m.put schemaKey ⟨body, m.clock⟩) (some schemaKey)
  | marks : Move maxAge url version fetch m .marking .reading
      (m.put versionKey ⟨Text.encode version, m.clock⟩) (some versionKey)
  | compiles {document schema} : m.find? schemaKey = some document →
      Schema.compile document.bytes = .ok schema →
      Move maxAge url version fetch m .reading (.ended (.ok schema)) m none
  | rests {result} : Move maxAge url version fetch m (.ended result) (.ended result) m none

theorem Move.isPastWriting {maxAge : Nat} {url version : String} {fetch : Fetch} {m m' : Memory}
    {stage stage' : Stage} {written : Option String}
    (h : Move maxAge url version fetch m stage stage' m' written) (hs : stage.IsPastWriting) :
    stage'.IsPastWriting := by
  cases h with
  | fails | compiles => trivial
  | rests => exact hs
  | unmarked | marked | missing | dated | old | young | fetches | stores | marks => exact hs.elim

theorem Move.store_eq {maxAge : Nat} {url version : String} {fetch : Fetch} {m m' : Memory}
    {stage stage' : Stage} (h : Move maxAge url version fetch m stage stage' m' none) : m' = m := by
  cases h <;> rfl

section Moves

variable {t : Turn} {m : Memory} {key : String}

theorem Turn.read_cases (t : Turn) (m : Memory) (key : String) :
    (∃ f, t.store.read m key = .error f) ∨
      t.store.read m key = .ok ((m.find? key).map StoredFile.bytes) := by
  by_cases hf : Fault.read key ∈ t.faults
  · exact .inl ⟨faultFailure key, by simp [store, Store.withFaults, hf]⟩
  · exact .inr (by simp [store, Store.withFaults, hf, Memory.store])

theorem Turn.modifiedAt_cases (t : Turn) (m : Memory) (key : String) :
    (∃ f, t.store.modifiedAt m key = .error f) ∨
      t.store.modifiedAt m key = .ok ((m.find? key).map StoredFile.modified) := by
  by_cases hf : Fault.date key ∈ t.faults
  · exact .inl ⟨faultFailure key, by simp [store, Store.withFaults, hf]⟩
  · exact .inr (by simp [store, Store.withFaults, hf, Memory.store])

/-- A write that is not lost fails and leaves the store alone, or is read from then on. -/
theorem Turn.write_cases (t : Turn) (m : Memory) (bytes : Bytes) (hk : Fault.lose key ∉ t.faults) :
    (∃ f, t.store.write m key bytes = (.error f, m)) ∨
      t.store.write m key bytes = (.ok (), m.put key ⟨bytes, m.clock⟩) := by
  by_cases hf : Fault.write key ∈ t.faults
  · exact .inl ⟨faultFailure key, by simp [store, Store.withFaults, hf]⟩
  · exact .inr (by simp [store, Store.withFaults, hf, hk, Memory.store])

variable (t m) (maxAge : Nat) (url version : String)

/-- One step leads from the stage to another, by a move. -/
def Moves (stage : Stage) : Prop := ∃ stage' m',
  (stage.procedure maxAge url version).step t.store t.fetch m =
      (stage'.procedure maxAge url version, m') ∧
    Move maxAge url version t.fetch m stage stage' m'
      ((stage.procedure maxAge url version).written? t.store m)

theorem moves_asking : Moves t m maxAge url version .asking := by
  rw [Moves, Stage.procedure, prepareVersion, Procedure.step]
  rcases t.read_cases m versionKey with ⟨f, hread⟩ | hread
  · rw [hread]
    exact ⟨.ended (.error f), m, rfl, .fails f (by simp)⟩
  · rw [hread]
    cases hmarker : m.find? versionKey with
    | none => exact ⟨.fetching, m, rfl, .unmarked (by simp [hmarker])⟩
    | some marker =>
      cases hmarked : isMarkedAs version marker.bytes with
      | false =>
        refine ⟨.fetching, m, ?_, .unmarked (by simpa [hmarker] using hmarked)⟩
        simp [Procedure.continueWith, hmarked, Stage.procedure]
      | true =>
        refine ⟨.dating, m, ?_, .marked hmarker hmarked⟩
        simp only [Procedure.continueWith, Option.map_some, hmarked, Bool.not_true,
          Bool.false_eq_true, if_false]
        rfl

theorem moves_dating : Moves t m maxAge url version .dating := by
  rw [Moves, Stage.procedure, Procedure.step]
  rcases t.modifiedAt_cases m schemaKey with ⟨f, hread⟩ | hread
  · rw [hread]
    exact ⟨.ended (.error f), m, rfl, .fails f (by simp)⟩
  · rw [hread]
    cases hdocument : m.find? schemaKey with
    | none => exact ⟨.fetching, m, rfl, .missing hdocument⟩
    | some document => exact ⟨.aging document.modified, m, rfl, .dated hdocument⟩

theorem moves_aging (modified : Int) : Moves t m maxAge url version (.aging modified) := by
  rw [Moves, Stage.procedure, Procedure.step]
  cases hfresh : isFresh m.clock modified maxAge with
  | false =>
    refine ⟨.fetching, m, ?_, .old hfresh⟩
    show (if isFresh m.clock modified maxAge then useStored else refresh url version, m) = _
    rw [hfresh, if_neg Bool.false_ne_true, Stage.procedure]
  | true =>
    refine ⟨.reading, m, ?_, .young hfresh⟩
    show (if isFresh m.clock modified maxAge then useStored else refresh url version, m) = _
    rw [hfresh, if_pos rfl, Stage.procedure]

theorem moves_fetching : Moves t m maxAge url version .fetching := by
  rw [Moves, Stage.procedure, refresh, Procedure.step]
  cases hfetch : t.fetch url with
  | error f => exact ⟨.ended (.error f), m, rfl, .fails f (by simp)⟩
  | ok body => exact ⟨.storing body, m, rfl, .fetches hfetch⟩

theorem moves_storing (body : Bytes) (hk : Fault.lose schemaKey ∉ t.faults) :
    Moves t m maxAge url version (.storing body) := by
  rw [Moves, Stage.procedure, Procedure.step, Procedure.written?]
  rcases t.write_cases m body hk with ⟨f, hwrite⟩ | hwrite
  · rw [hwrite]
    exact ⟨.ended (.error f), m, rfl, .fails f (by simp)⟩
  · rw [hwrite]
    exact ⟨.marking, _, rfl, .stores⟩

theorem moves_marking (hk : Fault.lose versionKey ∉ t.faults) :
    Moves t m maxAge url version .marking := by
  rw [Moves, Stage.procedure, Procedure.step, Procedure.written?]
  rcases t.write_cases m (Text.encode version) hk with ⟨f, hwrite⟩ | hwrite
  · rw [hwrite]
    exact ⟨.ended (.error f), m, rfl, .fails f (by simp)⟩
  · rw [hwrite]
    exact ⟨.reading, _, rfl, .marks⟩

theorem moves_reading : Moves t m maxAge url version .reading := by
  rw [Moves, Stage.procedure, useStored, Procedure.step]
  rcases t.read_cases m schemaKey with ⟨f, hread⟩ | hread
  · rw [hread]
    exact ⟨.ended (.error f), m, rfl, .fails f (by simp)⟩
  · rw [hread]
    cases hdocument : m.find? schemaKey with
    | none => exact ⟨.ended (.error _), m, rfl, .fails _ (by simp)⟩
    | some document =>
      cases hcompile : Schema.compile document.bytes with
      | error defect =>
        refine ⟨.ended (.error (.schemaDocument defect)), m, ?_, .fails _ (by simp)⟩
        simp [Procedure.continueWith, hcompile, Stage.procedure]
      | ok schema =>
        refine ⟨.ended (.ok schema), m, ?_, .compiles hdocument hcompile⟩
        simp [Procedure.continueWith, hcompile, Stage.procedure]

/-- **All that one step of a call can do.** -/
theorem exists_move (stage : Stage) (hk : ∀ key, Fault.lose key ∉ t.faults) :
    Moves t m maxAge url version stage := by
  cases stage with
  | asking => exact moves_asking t m maxAge url version
  | dating => exact moves_dating t m maxAge url version
  | aging modified => exact moves_aging t m maxAge url version modified
  | fetching => exact moves_fetching t m maxAge url version
  | storing body => exact moves_storing t m maxAge url version body (hk schemaKey)
  | marking => exact moves_marking t m maxAge url version (hk versionKey)
  | reading => exact moves_reading t m maxAge url version
  | ended result =>
    cases result with
    | ok schema => exact ⟨.ended (.ok schema), m, rfl, .rests⟩
    | error f => exact ⟨.ended (.error f), m, rfl, .rests⟩

end Moves

end PluginManager.Cache
