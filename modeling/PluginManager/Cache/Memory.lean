import PluginManager.Cache.Procedure

/-!
# A store in memory

* `Memory.store`: reads give the last write.
* `Store.withFaults`: single calls fail, or writes are lost, as told.
-/

namespace PluginManager.Cache

structure StoredFile where
  bytes : Bytes
  modified : Int
  deriving DecidableEq, Repr

structure Memory where
  files : List (String × StoredFile)
  clock : Int
  deriving DecidableEq, Repr

namespace Memory

def find? (m : Memory) (key : String) : Option StoredFile := m.files.lookup key

def forget (m : Memory) (key : String) : Memory :=
  { m with files := m.files.filter (·.1 ≠ key) }

def put (m : Memory) (key : String) (file : StoredFile) : Memory :=
  { m with files := (key, file) :: (m.forget key).files }

def age (m : Memory) (key : String) (seconds : Int) : Memory :=
  match m.find? key with
  | none => m
  | some file => m.put key { file with modified := file.modified - seconds }

def store : Store Memory where
  read m key := .ok ((m.find? key).map StoredFile.bytes)
  write m key bytes := (.ok (), m.put key ⟨bytes, m.clock⟩)
  modifiedAt m key := .ok ((m.find? key).map StoredFile.modified)
  now := Memory.clock

theorem find?_put_self (m : Memory) (key : String) (file : StoredFile) :
    (m.put key file).find? key = some file := by
  simp [find?, put]

end Memory

/-! ## Faults -/

inductive Fault where
  | read (key : String)
  | write (key : String)
  | date (key : String)
  | lose (key : String)
  deriving DecidableEq, Repr

def faultFailure (key : String) : Failure := .file ⟨key⟩ (.other "injected fault")

def Store.withFaults {σ : Type} (s : Store σ) (faults : List Fault) : Store σ where
  read m key := if Fault.read key ∈ faults then .error (faultFailure key) else s.read m key
  write m key bytes :=
    if Fault.write key ∈ faults then (.error (faultFailure key), m)
    else if Fault.lose key ∈ faults then (.ok (), m)
    else s.write m key bytes
  modifiedAt m key :=
    if Fault.date key ∈ faults then .error (faultFailure key) else s.modifiedAt m key
  now := s.now

end PluginManager.Cache
