import PluginManager.Cache.Memory
import PluginManager.Cache.Prepare

/-!
# Calls of the schema cache

A call prepares the schema for an address over the store in memory.  Any of its writes may fail, and
any time may pass before it.

* `perform_of_fresh`: a fresh record is compiled as it is.
* `perform_of_stale`: otherwise a document is fetched and written, and then its version; what one
  of these does not reach stays as it was.
-/

namespace PluginManager.Cache

/-! ## The store in memory -/

namespace Memory

theorem find?_put_of_ne (m : Memory) {key other : String} (file : StoredFile) (h : other ≠ key) :
    (m.put key file).find? other = m.find? other := by
  have hkeep : ∀ files : List (String × StoredFile),
      (files.filter (·.1 ≠ key)).lookup other = files.lookup other := by
    intro files
    induction files with
    | nil => rfl
    | cons x rest ih =>
      obtain ⟨k, y⟩ := x
      by_cases hk : k = key
      · subst hk
        simpa [List.lookup_cons, beq_false_of_ne h] using ih
      · rw [List.filter_cons_of_pos (by simpa using hk)]
        by_cases ho : other = k
        · simp [ho]
        · simpa [List.lookup_cons, beq_false_of_ne ho] using ih
  show List.lookup other ((key, file) :: m.files.filter (·.1 ≠ key)) = m.files.lookup other
  rw [List.lookup_cons, beq_false_of_ne h]
  exact hkeep m.files

def wait (m : Memory) (seconds : Int) : Memory := { m with clock := m.clock + seconds }

/-- The record of the store is marked as the version and young enough. -/
def isFreshFor (m : Memory) (maxAge : Nat) (version : String) : Bool :=
  match m.find? versionKey, m.find? schemaKey with
  | some marker, some document =>
    isMarkedAs version marker.bytes && isFresh m.clock document.modified maxAge
  | _, _ => false

/-- The schema compiled from the document in the store. -/
def compileStored (m : Memory) : Except Failure Schema :=
  match m.find? schemaKey with
  | none => .error (.schemaDocument .vanished)
  | some document => (Schema.compile document.bytes).mapError .schemaDocument

end Memory

/-! ## Calls -/

structure Call where
  url : String
  maxAge : Nat
  /-- How long after the call before it comes. -/
  wait : Int
  /-- The files that cannot be written. -/
  failing : List String
  fetch : Fetch

namespace Call

def version? (c : Call) : Option String := versionOf? c.url

def store (c : Call) : Store Memory := Memory.store.withFaults (c.failing.map Fault.write)

def perform (c : Call) (m : Memory) : Procedure.Outcome Schema Memory :=
  (prepare c.maxAge c.url).run c.store c.fetch (m.wait c.wait)

/-! ## Single steps -/

variable (c : Call) (m : Memory)

theorem store_read (key : String) :
    c.store.read m key = .ok ((m.find? key).map StoredFile.bytes) := by
  simp [store, Store.withFaults, Memory.store]

theorem store_modifiedAt (key : String) :
    c.store.modifiedAt m key = .ok ((m.find? key).map StoredFile.modified) := by
  simp [store, Store.withFaults, Memory.store]

theorem store_write (key : String) (bytes : Bytes) : c.store.write m key bytes =
    if key ∈ c.failing then (.error (faultFailure key), m)
    else (.ok (), m.put key ⟨bytes, m.clock⟩) := by
  simp [store, Store.withFaults, Memory.store]

theorem run_useStored : useStored.run c.store c.fetch m = ⟨m.compileStored, [], m⟩ := by
  rw [useStored, Procedure.run, store_read, Memory.compileStored]
  cases m.find? schemaKey with
  | none => rfl
  | some document =>
    simp only [Option.map_some]
    cases Schema.compile document.bytes <;> rfl

/-- The store when the document of a version has been written, and its marker too if that can be. -/
def stored (version : String) (body : Bytes) : Memory :=
  let m := m.put schemaKey ⟨body, m.clock⟩
  if versionKey ∈ c.failing then m else m.put versionKey ⟨Text.encode version, m.clock⟩

theorem run_refresh (version : String) : (refresh c.url version).run c.store c.fetch m =
    match c.fetch c.url with
    | .error f => ⟨.error f, [c.url], m⟩
    | .ok body =>
      if schemaKey ∈ c.failing then ⟨.error (faultFailure schemaKey), [c.url], m⟩
      else if versionKey ∈ c.failing then
        ⟨.error (faultFailure versionKey), [c.url], c.stored m version body⟩
      else
        ⟨(c.stored m version body).compileStored, [c.url], c.stored m version body⟩ := by
  rw [refresh, Procedure.run]
  cases hf : c.fetch c.url with
  | error f => rfl
  | ok body =>
    simp only [Procedure.run, store_write, stored]
    by_cases hs : schemaKey ∈ c.failing
    · simp only [if_pos hs, Procedure.Outcome.addFetch]
    · by_cases hv : versionKey ∈ c.failing
      · simp only [if_neg hs, if_pos hv, Procedure.Outcome.addFetch]
      · simp only [if_neg hs, if_neg hv, run_useStored, Procedure.Outcome.addFetch]

theorem run_prepareVersion (version : String) :
    (prepareVersion c.maxAge c.url version).run c.store c.fetch m =
      if m.isFreshFor c.maxAge version then ⟨m.compileStored, [], m⟩
      else (refresh c.url version).run c.store c.fetch m := by
  rw [prepareVersion, Procedure.run, store_read, Memory.isFreshFor]
  cases hv : m.find? versionKey with
  | none => rfl
  | some marker =>
    simp only [Option.map_some]
    cases hmark : isMarkedAs version marker.bytes with
    | false => cases m.find? schemaKey <;> simp [hmark]
    | true =>
      simp only [Bool.not_true, Bool.false_eq_true, if_false, Procedure.run, store_modifiedAt]
      cases hs : m.find? schemaKey with
      | none => rfl
      | some document =>
        simp only [hmark, Bool.true_and]
        show Procedure.run c.store c.fetch
          (if isFresh m.clock document.modified c.maxAge then useStored
            else refresh c.url version) m = _
        by_cases hfresh : isFresh m.clock document.modified c.maxAge = true
        · rw [if_pos hfresh, if_pos hfresh]
          exact run_useStored c m
        · rw [if_neg hfresh, if_neg hfresh]

/-! ## Whole calls -/

variable {c m} {version : String}

theorem perform_of_no_version (h : c.version? = none) :
    c.perform m = ⟨.error (.schemaUrl c.url), [], m.wait c.wait⟩ := by
  rw [version?] at h
  rw [perform, prepare, h]
  rfl

/-- **A fresh record is compiled as it is**, without a fetch. -/
theorem perform_of_fresh (h : c.version? = some version)
    (hf : (m.wait c.wait).isFreshFor c.maxAge version = true) :
    c.perform m = ⟨(m.wait c.wait).compileStored, [], m.wait c.wait⟩ := by
  rw [version?] at h
  rw [perform, prepare, h]
  simp only [run_prepareVersion, hf, if_true]

/-- **A stale record is replaced**, as far as the fetch and the two writes succeed. -/
theorem perform_of_stale (h : c.version? = some version)
    (hf : (m.wait c.wait).isFreshFor c.maxAge version = false) : c.perform m =
      match c.fetch c.url with
      | .error f => ⟨.error f, [c.url], m.wait c.wait⟩
      | .ok body =>
        if schemaKey ∈ c.failing then ⟨.error (faultFailure schemaKey), [c.url], m.wait c.wait⟩
        else if versionKey ∈ c.failing then
          ⟨.error (faultFailure versionKey), [c.url], c.stored (m.wait c.wait) version body⟩
        else
          ⟨(c.stored (m.wait c.wait) version body).compileStored, [c.url],
            c.stored (m.wait c.wait) version body⟩ := by
  rw [version?] at h
  rw [perform, prepare, h]
  simp only [run_prepareVersion, hf, Bool.false_eq_true, if_false]
  exact run_refresh c (m.wait c.wait) version

/-- The document of a call is in the store once it has been written, whatever becomes of the
marker. -/
theorem find?_stored_schema (version : String) (body : Bytes) :
    (c.stored m version body).find? schemaKey = some ⟨body, m.clock⟩ := by
  rw [stored]
  split
  · exact Memory.find?_put_self _ _ _
  · rw [Memory.find?_put_of_ne _ _ (by decide)]
    exact Memory.find?_put_self _ _ _

theorem find?_stored_marker (version : String) (body : Bytes) :
    (c.stored m version body).find? versionKey =
      if versionKey ∈ c.failing then m.find? versionKey
      else some ⟨Text.encode version, m.clock⟩ := by
  rw [stored]
  split
  · exact Memory.find?_put_of_ne _ _ (by decide)
  · exact Memory.find?_put_self _ _ _

end Call

end PluginManager.Cache
