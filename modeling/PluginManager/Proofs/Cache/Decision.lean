import PluginManager.Proofs.Cache.Provenance

/-!
# What a call does to any store

The store is arbitrary here: its calls may fail at any time, and a read gives what was last written.
A call is followed operation by operation.

* `Procedure.history`: all operations of a run in order, each with its failure if it had one.
  `trace_run`: **it leads to the outcome of the run**.
* `Trace.failed_last`: an operation that fails is the last one, and its error the result.
* `prepare_decides`: **when a call fetches, what it leaves in the store, and what it answers**.
-/

namespace PluginManager.Cache

/-! ## Histories -/

inductive Operation where
  | read (key : String)
  | write (key : String) (bytes : Bytes)
  | modifiedAt (key : String)
  | now
  | fetch (url : String)
  deriving DecidableEq, Repr

/-- An operation that was carried out. -/
structure Record where
  operation : Operation
  failure? : Option Failure

namespace Operation

def fetchedUrl? : Operation → Option String
  | fetch url => some url
  | _ => none

variable {σ : Type} (store : Store σ)

/-- The store after the operation. -/
def effect : Operation → σ → σ
  | write key bytes, s => (store.write s key bytes).2
  | _, s => s

end Operation

/-- The record of an operation with its answer. -/
def Operation.answered {β : Type} (operation : Operation) : Except Failure β → Record
  | .ok _ => ⟨operation, none⟩
  | .error f => ⟨operation, some f⟩

namespace Procedure

variable {α σ : Type}

/-- The operations of a run, by the same recursion as the run. -/
def history (store : Store σ) (fetched : Fetch) : Procedure α → σ → List Record
  | done _, _ => []
  | fail _, _ => []
  | read key next, s =>
    (Operation.read key).answered (store.read s key) ::
      match store.read s key with
      | .error _ => []
      | .ok b => history store fetched (next b) s
  | write key bytes next, s =>
    (Operation.write key bytes).answered (store.write s key bytes).1 ::
      match store.write s key bytes with
      | (.error _, _) => []
      | (.ok (), s') => history store fetched next s'
  | modifiedAt key next, s =>
    (Operation.modifiedAt key).answered (store.modifiedAt s key) ::
      match store.modifiedAt s key with
      | .error _ => []
      | .ok t => history store fetched (next t) s
  | now next, s => ⟨.now, none⟩ :: history store fetched (next (store.now s)) s
  | fetch url next, s =>
    (Operation.fetch url).answered (fetched url) ::
      match fetched url with
      | .error _ => []
      | .ok body => history store fetched (next body) s

variable {store : Store σ} {fetched : Fetch}

/-- A history from a state and the outcome it leads to: each operation leaves the store to the next,
and one that fails ends the run with its error. -/
inductive Trace (store : Store σ) : σ → List Record → Outcome α σ → Prop where
  | ended (s : σ) (result : Except Failure α) : Trace store s [] ⟨result, [], s⟩
  | failed (s : σ) (operation : Operation) (f : Failure) :
      Trace store s [⟨operation, some f⟩]
        ⟨.error f, operation.fetchedUrl?.toList, operation.effect store s⟩
  | next {s : σ} (operation : Operation) {rest : List Record} {o : Outcome α σ}
      (h : Trace store (operation.effect store s) rest o) :
      Trace store s (⟨operation, none⟩ :: rest)
        ⟨o.result, operation.fetchedUrl?.toList ++ o.fetched, o.store⟩

/-- **The history of a run leads to its outcome.** -/
theorem trace_run (p : Procedure α) (s : σ) :
    Trace store s (p.history store fetched s) (p.run store fetched s) := by
  induction p generalizing s with
  | done a => exact .ended s (.ok a)
  | fail f => exact .ended s (.error f)
  | read key next ih =>
    rw [history, run]
    cases store.read s key with
    | error f => exact .failed s (.read key) f
    | ok b => exact .next (.read key) (ih b s)
  | write key bytes next ih =>
    rw [history, run]
    rcases h : store.write s key bytes with ⟨f | u, s'⟩
    all_goals
      have hstore : s' = (Operation.write key bytes).effect store s := by
        rw [Operation.effect, h]
      rw [hstore]
    · exact .failed s (.write key bytes) f
    · exact .next (.write key bytes) (ih _)
  | modifiedAt key next ih =>
    rw [history, run]
    cases store.modifiedAt s key with
    | error f => exact .failed s (.modifiedAt key) f
    | ok t => exact .next (.modifiedAt key) (ih t s)
  | now next ih => exact .next .now (ih (store.now s) s)
  | fetch url next ih =>
    rw [history, run]
    cases fetched url with
    | error f => exact .failed s (.fetch url) f
    | ok body => exact .next (.fetch url) (ih body s)

variable {s : σ} {records before after : List Record} {o : Outcome α σ} {operation : Operation}
  {f : Failure}

/-- **An operation that fails is the last one**, and its error is the result. -/
theorem Trace.failed_last (h : Trace store s records o)
    (hf : records = before ++ ⟨operation, some f⟩ :: after) : after = [] ∧ o.result = .error f := by
  induction h generalizing before with
  | ended => simp at hf
  | failed s op g =>
    cases before with
    | nil =>
      simp only [List.nil_append, List.cons.injEq, Record.mk.injEq, Option.some.injEq] at hf
      obtain ⟨⟨-, rfl⟩, rfl⟩ := hf
      exact ⟨rfl, rfl⟩
    | cons r rest => simp at hf
  | next operation h ih =>
    cases before with
    | nil => simp at hf
    | cons r rest => exact ih (List.cons.inj hf).2

/-- No operation of the run fails, but for a fetch. -/
def StoreHolds (store : Store σ) (fetched : Fetch) (p : Procedure α) (s : σ) : Prop :=
  ∀ r ∈ p.history store fetched s, r.failure? ≠ none → r.operation.fetchedUrl? ≠ none

end Procedure

/-! ## Stores that remember -/

variable {σ : Type}

/-- What a store answers is what was last written, as far as its calls succeed. -/
structure Store.Remembers (store : Store σ) (file? : σ → String → Option StoredFile) : Prop where
  read : ∀ s key found, store.read s key = .ok found →
    found = (file? s key).map StoredFile.bytes
  modifiedAt : ∀ s key found, store.modifiedAt s key = .ok found →
    found = (file? s key).map StoredFile.modified
  write : ∀ s s' key bytes, store.write s key bytes = (.ok (), s') →
    (file? s' key).map StoredFile.bytes = some bytes ∧
      ∀ other, other ≠ key → file? s' other = file? s other

/-- The store in memory remembers, whichever of its calls fail. -/
theorem Memory.remembers_withFaults {faults : List Fault}
    (hlose : ∀ key, Fault.lose key ∉ faults) :
    (Memory.store.withFaults faults).Remembers Memory.find? := by
  refine ⟨?_, ?_, ?_⟩
  · intro m key found h
    simp only [Store.withFaults, Memory.store] at h
    split at h
    · exact absurd h (by simp)
    · exact (Except.ok.inj h).symm
  · intro m key found h
    simp only [Store.withFaults, Memory.store] at h
    split at h
    · exact absurd h (by simp)
    · exact (Except.ok.inj h).symm
  · intro m m' key bytes h
    simp only [Store.withFaults, Memory.store, if_neg (hlose key)] at h
    split at h
    · exact absurd h (by simp)
    · obtain rfl := (Prod.mk.inj h).2
      exact ⟨by rw [Memory.find?_put_self]; rfl, fun other ho => Memory.find?_put_of_ne m _ ho⟩

/-- Without faults its calls never fail. -/
theorem Memory.storeHolds {α : Type} {fetched : Fetch} (p : Procedure α) (m : Memory) :
    p.StoreHolds (Memory.store.withFaults []) fetched m := by
  have hread : ∀ m key, (Memory.store.withFaults []).read m key =
      .ok ((m.find? key).map StoredFile.bytes) := fun _ _ => rfl
  have hdate : ∀ m key, (Memory.store.withFaults []).modifiedAt m key =
      .ok ((m.find? key).map StoredFile.modified) := fun _ _ => rfl
  have hwrite : ∀ m key bytes, (Memory.store.withFaults []).write m key bytes =
      (.ok (), m.put key ⟨bytes, m.clock⟩) := fun _ _ _ => rfl
  induction p generalizing m with
  | done a => simp [Procedure.StoreHolds, Procedure.history]
  | fail f => simp [Procedure.StoreHolds, Procedure.history]
  | read key next ih =>
    rw [Procedure.StoreHolds, Procedure.history, hread]
    exact List.forall_mem_cons.mpr ⟨fun h => absurd rfl h, ih _ m⟩
  | write key bytes next ih =>
    rw [Procedure.StoreHolds, Procedure.history, hwrite]
    exact List.forall_mem_cons.mpr ⟨fun h => absurd rfl h, ih _⟩
  | modifiedAt key next ih =>
    rw [Procedure.StoreHolds, Procedure.history, hdate]
    exact List.forall_mem_cons.mpr ⟨fun h => absurd rfl h, ih _ m⟩
  | now next ih =>
    exact List.forall_mem_cons.mpr ⟨fun h => absurd rfl h, ih _ m⟩
  | fetch url next ih =>
    rw [Procedure.StoreHolds, Procedure.history]
    refine List.forall_mem_cons.mpr ⟨fun _ => ?_, ?_⟩
    · cases fetched url <;> simp [Operation.answered, Operation.fetchedUrl?]
    · cases fetched url with
      | error f => simp
      | ok body => exact ih body m

/-- The record is marked as the version, and its document is there and young enough. -/
def FreshRecord (file? : String → Option StoredFile) (now : Int) (maxAge : Nat)
    (version : String) : Prop :=
  ∃ marker document, file? versionKey = some marker ∧ file? schemaKey = some document ∧
    Text.trim (Text.decodeLossy marker.bytes) = version ∧ max 0 (now - document.modified) < maxAge

/-! ## One operation at a time -/

section Peeling

variable {α : Type} {store : Store σ} {file? : σ → String → Option StoredFile} {fetched : Fetch}
  {s : σ} {key url : String} (hstore : store.Remembers file?)

include hstore

theorem Procedure.StoreHolds.read {next : Option Bytes → Procedure α}
    (h : (Procedure.read key next).StoreHolds store fetched s) :
    (next ((file? s key).map StoredFile.bytes)).StoreHolds store fetched s ∧
      (Procedure.read key next).run store fetched s =
        (next ((file? s key).map StoredFile.bytes)).run store fetched s := by
  rw [StoreHolds, history] at h
  rw [run]
  cases hread : store.read s key with
  | error f => simp [hread, Operation.answered, Operation.fetchedUrl?] at h
  | ok found =>
    rw [hread] at h
    obtain rfl := hstore.read s key found hread
    exact ⟨fun r hr => h r (List.mem_cons_of_mem _ hr), rfl⟩

theorem Procedure.StoreHolds.modifiedAt {next : Option Int → Procedure α}
    (h : (Procedure.modifiedAt key next).StoreHolds store fetched s) :
    (next ((file? s key).map StoredFile.modified)).StoreHolds store fetched s ∧
      (Procedure.modifiedAt key next).run store fetched s =
        (next ((file? s key).map StoredFile.modified)).run store fetched s := by
  rw [StoreHolds, history] at h
  rw [run]
  cases hdate : store.modifiedAt s key with
  | error f => simp [hdate, Operation.answered, Operation.fetchedUrl?] at h
  | ok found =>
    rw [hdate] at h
    obtain rfl := hstore.modifiedAt s key found hdate
    exact ⟨fun r hr => h r (List.mem_cons_of_mem _ hr), rfl⟩

theorem Procedure.StoreHolds.write {bytes : Bytes} {next : Procedure α}
    (h : (Procedure.write key bytes next).StoreHolds store fetched s) :
    ∃ s', next.StoreHolds store fetched s' ∧
      (Procedure.write key bytes next).run store fetched s = next.run store fetched s' ∧
      (file? s' key).map StoredFile.bytes = some bytes ∧
      ∀ other, other ≠ key → file? s' other = file? s other := by
  rw [StoreHolds, history] at h
  rw [run]
  rcases hwrite : store.write s key bytes with ⟨f | u, s'⟩
  · simp [hwrite, Operation.answered, Operation.fetchedUrl?] at h
  · rw [hwrite] at h
    exact ⟨s', fun r hr => h r (List.mem_cons_of_mem _ hr), rfl, hstore.write s s' key bytes hwrite⟩

/-- A document in the store is compiled as it is. -/
theorem run_useStored {bytes : Bytes} (h : useStored.StoreHolds store fetched s)
    (hbytes : (file? s schemaKey).map StoredFile.bytes = some bytes) :
    useStored.run store fetched s =
      ⟨(Schema.compile bytes).mapError .schemaDocument, [], s⟩ := by
  rw [useStored] at h ⊢
  rw [(h.read hstore).2, hbytes]
  dsimp only
  cases Schema.compile bytes <;> rfl

/-- What a fetch leaves in the store and answers. -/
theorem run_refresh {version : String} (h : (refresh url version).StoreHolds store fetched s) :
    ((refresh url version).run store fetched s).fetched = [url] ∧
      (∀ f, fetched url = .error f →
        (refresh url version).run store fetched s = ⟨.error f, [url], s⟩) ∧
      ∀ body, fetched url = .ok body →
        let o := (refresh url version).run store fetched s
        o.result = (Schema.compile body).mapError .schemaDocument ∧
          (file? o.store schemaKey).map StoredFile.bytes = some body ∧
          (file? o.store versionKey).map StoredFile.bytes = some (Text.encode version) ∧
          ∀ other, other ≠ schemaKey → other ≠ versionKey →
            file? o.store other = file? s other := by
  rw [Procedure.StoreHolds, refresh, Procedure.history] at h
  rw [refresh, Procedure.run]
  cases hfetch : fetched url with
  | error f => exact ⟨rfl, by rintro _ ⟨⟩; rfl, by rintro _ ⟨⟩⟩
  | ok body =>
    rw [hfetch] at h
    have hwrites : Procedure.StoreHolds store fetched (.write schemaKey body
        (.write versionKey (Text.encode version) useStored)) s :=
      fun r hr => h r (List.mem_cons_of_mem _ hr)
    obtain ⟨s₁, hwrites, hrun₁, hdocument, hothers₁⟩ := hwrites.write hstore
    obtain ⟨s₂, huse, hrun₂, hmarker, hothers₂⟩ := hwrites.write hstore
    have hkept : (file? s₂ schemaKey).map StoredFile.bytes = some body := by
      rw [hothers₂ schemaKey (by decide), hdocument]
    have hrun := (hrun₁.trans hrun₂).trans (run_useStored hstore huse hkept)
    simp only [hrun, Procedure.Outcome.addFetch]
    refine ⟨trivial, by rintro _ ⟨⟩, ?_⟩
    rintro _ ⟨⟩
    refine ⟨rfl, hkept, hmarker, ?_⟩
    intro other hs hv
    rw [hothers₂ other hv, hothers₁ other hs]

/-- A call either uses the stored document, which is fresh then, or fetches. -/
theorem run_prepareVersion {maxAge : Nat} {version : String}
    (h : (prepareVersion maxAge url version).StoreHolds store fetched s) :
    (FreshRecord (file? s) (store.now s) maxAge version ∧
      useStored.StoreHolds store fetched s ∧
      (prepareVersion maxAge url version).run store fetched s = useStored.run store fetched s) ∨
    (¬ FreshRecord (file? s) (store.now s) maxAge version ∧
      (refresh url version).StoreHolds store fetched s ∧
      (prepareVersion maxAge url version).run store fetched s =
        (refresh url version).run store fetched s) := by
  rw [prepareVersion] at h ⊢
  obtain ⟨h, hrun⟩ := h.read hstore
  rw [hrun]
  cases hmarker : file? s versionKey with
  | none =>
    rw [hmarker] at h
    refine .inr ⟨?_, h, rfl⟩
    rintro ⟨marker, -, hm, -⟩
    rw [hmarker] at hm
    exact absurd hm (by simp)
  | some marker =>
    rw [hmarker] at h
    simp only [Option.map_some] at h ⊢
    cases hmarked : isMarkedAs version marker.bytes with
    | false =>
      simp only [hmarked, Bool.not_false, if_true] at h ⊢
      refine .inr ⟨?_, h, trivial⟩
      rintro ⟨marker', -, hm, -, htext, -⟩
      obtain rfl : marker = marker' := Option.some.inj (hmarker.symm.trans hm)
      exact (of_decide_eq_false hmarked) htext
    | true =>
      simp only [hmarked, Bool.not_true, Bool.false_eq_true, if_false] at h ⊢
      obtain ⟨h, hrun⟩ := h.modifiedAt hstore
      rw [hrun]
      cases hdocument : file? s schemaKey with
      | none =>
        rw [hdocument] at h
        refine .inr ⟨?_, h, rfl⟩
        rintro ⟨-, document, -, hd, -⟩
        rw [hdocument] at hd
        exact absurd hd (by simp)
      | some document =>
        rw [hdocument] at h
        simp only [Option.map_some, Procedure.run] at h ⊢
        have h : Procedure.StoreHolds store fetched
            (if isFresh (store.now s) document.modified maxAge then useStored
              else refresh url version) s :=
          fun r hr => h r (List.mem_cons_of_mem _ hr)
        by_cases hyoung : isFresh (store.now s) document.modified maxAge = true
        · rw [if_pos hyoung] at h
          simp only [if_pos hyoung]
          exact .inl ⟨⟨marker, document, hmarker, hdocument, of_decide_eq_true hmarked,
            of_decide_eq_true hyoung⟩, h, trivial⟩
        · rw [if_neg hyoung] at h
          simp only [if_neg hyoung]
          refine .inr ⟨?_, h, trivial⟩
          rintro ⟨-, document', -, hd, -, hage⟩
          obtain rfl : document = document' := Option.some.inj (hdocument.symm.trans hd)
          exact hyoung (decide_eq_true hage)

end Peeling

/-! ## The decision -/

/-- **What a call does.**  An address without a version is an error, and nothing else happens.  An
operation that fails is the last one, and its error is the result.  Otherwise a fresh record is
compiled as it is; one that is not is fetched from exactly that address, stored under its version
beside what else there is, and compiled. -/
theorem prepare_decides {store : Store σ} {file? : σ → String → Option StoredFile}
    (hstore : store.Remembers file?) (fetched : Fetch) (maxAge : Nat) (url : String) (s : σ) :
    let call := prepare maxAge url
    let history := call.history store fetched s
    let outcome := call.run store fetched s
    Procedure.Trace store s history outcome ∧
    (versionOf? url = none →
      history = [] ∧ outcome = ⟨.error (.schemaUrl url), [], s⟩) ∧
    (∀ before operation f after, history = before ++ ⟨operation, some f⟩ :: after →
      after = [] ∧ outcome.result = .error f) ∧
    ∀ version, versionOf? url = some version → call.StoreHolds store fetched s →
      (FreshRecord (file? s) (store.now s) maxAge version →
        ∃ document, file? s schemaKey = some document ∧
          outcome = ⟨(Schema.compile document.bytes).mapError .schemaDocument, [], s⟩) ∧
      (¬ FreshRecord (file? s) (store.now s) maxAge version →
        outcome.fetched = [url] ∧
        (∀ f, fetched url = .error f → outcome = ⟨.error f, [url], s⟩) ∧
        ∀ body, fetched url = .ok body →
          outcome.result = (Schema.compile body).mapError .schemaDocument ∧
          (file? outcome.store schemaKey).map StoredFile.bytes = some body ∧
          (file? outcome.store versionKey).map StoredFile.bytes = some (Text.encode version) ∧
          ∀ other, other ≠ schemaKey → other ≠ versionKey →
            file? outcome.store other = file? s other) := by
  intro call history outcome
  have htrace : Procedure.Trace store s history outcome := Procedure.trace_run call s
  refine ⟨htrace, ?_, fun _ _ _ _ hf => htrace.failed_last hf, ?_⟩
  · intro hv
    have hcall : call = .fail (.schemaUrl url) := by simp only [call, prepare, hv]
    exact ⟨by simp only [history, hcall, Procedure.history],
      by simp only [outcome, hcall, Procedure.run]⟩
  · intro version hv h
    have hcall : call = prepareVersion maxAge url version := by simp only [call, prepare, hv]
    have houtcome : outcome = (prepareVersion maxAge url version).run store fetched s := by
      simp only [outcome, hcall]
    rw [hcall] at h
    rcases run_prepareVersion hstore h with ⟨hfresh, huse, hrun⟩ | ⟨hstale, hrefresh, hrun⟩
    · refine ⟨?_, fun hn => absurd hfresh hn⟩
      obtain ⟨-, document, -, hdocument, -⟩ := hfresh
      intro _
      refine ⟨document, hdocument, ?_⟩
      rw [houtcome, hrun]
      exact run_useStored hstore huse (by rw [hdocument]; rfl)
    · refine ⟨fun hf => absurd hf hstale, fun _ => ?_⟩
      rw [houtcome, hrun]
      exact run_refresh hstore hrefresh

/-- A store with the record of version 1 and another file, and the documents of `twoBodies`. -/
def recordedStore : Memory :=
  ⟨[(schemaKey, ⟨twoBodies "1", 3⟩), (versionKey, ⟨Text.encode " 1\n", 3⟩),
    ("other", ⟨Text.encode "kept", 0⟩)], 12⟩

/-- Nine seconds are too old when eight are allowed.  The new record replaces the old one. -/
theorem prepare_decides_recordedStore :
    (Memory.store.withFaults []).Remembers Memory.find? ∧
      let outcome := (prepare 8 "h/1/s").run (Memory.store.withFaults [])
        (fun _ => .ok (twoBodies "2")) recordedStore
      outcome.fetched = ["h/1/s"] ∧
      outcome.result = (Schema.compile (twoBodies "2")).mapError .schemaDocument ∧
      (outcome.store.find? versionKey).map StoredFile.bytes = some (Text.encode "1") ∧
      outcome.store.find? "other" = some ⟨Text.encode "kept", 0⟩ := by
  have hstore : (Memory.store.withFaults []).Remembers Memory.find? :=
    Memory.remembers_withFaults (by simp)
  have hstale : ¬ FreshRecord recordedStore.find? 12 8 "1" := by
    rintro ⟨-, document, -, hd, -, hage⟩
    obtain rfl : (⟨twoBodies "1", 3⟩ : StoredFile) = document := Option.some.inj hd
    exact absurd hage (by decide)
  obtain ⟨-, -, -, hversion⟩ := prepare_decides hstore (fun _ => .ok (twoBodies "2")) 8 "h/1/s"
    recordedStore
  obtain ⟨-, hfetch⟩ := hversion "1" (by decide) (Memory.storeHolds _ recordedStore)
  obtain ⟨hfetched, -, hbody⟩ := hfetch hstale
  obtain ⟨hresult, -, hmarker, hothers⟩ := hbody _ rfl
  exact ⟨hstore, hfetched, hresult, hmarker, hothers "other" (by decide) (by decide)⟩

end PluginManager.Cache
