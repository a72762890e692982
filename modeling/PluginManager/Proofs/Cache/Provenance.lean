import PluginManager.Proofs.Cache.Call
import PluginManager.Proofs.Text.Utf8

/-!
# Where the stored document comes from

The record of the cache is two files, the document and the marker with its version, and a call
writes the document first.  A call that fails between the two writes leaves its document under the
marker of an earlier call.

* `Traced`: the invariant.  The document belongs to the last call that wrote it, and so does the
  marker unless that call could not write it.
* `traced_performAll`: any run of calls keeps it.
* `compiled_document_of_last_writer`: **which document a call compiles**, and when it is the one of
  another version.
* `torn_record_is_served`: a run in which it is.
-/

namespace PluginManager.Cache

/-! ## Runs of calls -/

def performAll : List Call → Memory → Memory
  | [], m => m
  | c :: rest, m => performAll rest (c.perform m).store

namespace Call

/-- The call fetches a document and writes it. -/
def writes (c : Call) (m : Memory) : Bool :=
  match c.version? with
  | none => false
  | some version =>
    !(m.wait c.wait).isFreshFor c.maxAge version && (c.fetch c.url).isOk &&
      decide (schemaKey ∉ c.failing)

/-- Versions have no blanks around them, and the version decides what is fetched. -/
structure Honest (body : String → Bytes) (c : Call) : Prop where
  trimmed : ∀ version, c.version? = some version → Text.trim version = version
  answers : ∀ version bytes, c.version? = some version → c.fetch c.url = .ok bytes →
    bytes = body version

end Call

/-- The last of the calls that wrote the document, or `last` where none did. -/
def lastWriter : List Call → Memory → Option Call → Option Call
  | [], _, last => last
  | c :: rest, m, last => lastWriter rest (c.perform m).store (if c.writes m then some c else last)

theorem lastWriter_append (cs ds : List Call) (m : Memory) (last : Option Call) :
    lastWriter (cs ++ ds) m last = lastWriter ds (performAll cs m) (lastWriter cs m last) := by
  induction cs generalizing m last with
  | nil => rfl
  | cons c rest ih => exact ih (c.perform m).store _

/-! ## The invariant -/

variable {body : String → Bytes} {m : Memory} {last : Option Call} {c : Call} {version : String}

/-- The document is that of the last call that wrote it.  The marker is written by the same call
unless that write fails. -/
structure Traced (body : String → Bytes) (m : Memory) (last : Option Call) : Prop where
  document : (m.find? schemaKey).map StoredFile.bytes = (last.bind Call.version?).map body
  marker : ∀ file, m.find? versionKey = some file →
    ∃ d v, last = some d ∧ file.bytes = Text.encode v ∧ Text.trim v = v ∧
      (versionKey ∉ d.failing → d.version? = some v)

theorem traced_empty (hm : m.files = []) : Traced body m none := by
  have hfind : ∀ key, m.find? key = none := by
    intro key
    rw [Memory.find?, hm]
    rfl
  refine ⟨by rw [hfind]; rfl, ?_⟩
  intro file hfile
  rw [hfind] at hfile
  exact absurd hfile (by simp)

theorem Traced.wait (h : Traced body m last) (seconds : Int) : Traced body (m.wait seconds) last :=
  ⟨h.document, h.marker⟩

theorem Call.writes_of_stale {bytes : Bytes} (hv : c.version? = some version)
    (hf : (m.wait c.wait).isFreshFor c.maxAge version = false) (hb : c.fetch c.url = .ok bytes)
    (hs : schemaKey ∉ c.failing) : c.writes m = true := by
  rw [writes, hv]
  simp [hf, hb, hs, Except.isOk, Except.toBool]

/-- A call that does not write leaves the store as it was, but for the time. -/
theorem Call.store_perform_of_not_writes (h : c.writes m = false) :
    (c.perform m).store = m.wait c.wait := by
  cases hv : c.version? with
  | none => rw [perform_of_no_version hv]
  | some version =>
    cases hf : (m.wait c.wait).isFreshFor c.maxAge version with
    | true => rw [perform_of_fresh hv hf]
    | false =>
      rw [perform_of_stale hv hf]
      cases hb : c.fetch c.url with
      | error f => rfl
      | ok bytes =>
        by_cases hs : schemaKey ∈ c.failing
        · simp only [if_pos hs]
        · rw [writes_of_stale hv hf hb hs] at h
          exact absurd h (by decide)

/-- A call that writes leaves its own document, and its version where it can. -/
theorem Call.store_perform_of_writes (hc : c.Honest body) (h : c.writes m = true) :
    ∃ version, c.version? = some version ∧
      (c.perform m).store = c.stored (m.wait c.wait) version (body version) := by
  rw [writes] at h
  cases hv : c.version? with
  | none =>
    rw [hv] at h
    exact absurd h (by simp)
  | some version =>
    rw [hv] at h
    simp only [Bool.and_eq_true, Bool.not_eq_true', decide_eq_true_eq] at h
    obtain ⟨⟨hf, hok⟩, hs⟩ := h
    cases hb : c.fetch c.url with
    | error f =>
      rw [hb] at hok
      exact absurd hok (by simp [Except.isOk, Except.toBool])
    | ok bytes =>
      obtain rfl := hc.answers version bytes hv hb
      refine ⟨version, rfl, ?_⟩
      rw [perform_of_stale hv hf, hb]
      simp only [if_neg hs]
      split <;> rfl

/-- **One call keeps the invariant.** -/
theorem traced_perform (hc : c.Honest body) (h : Traced body m last) :
    Traced body (c.perform m).store (if c.writes m then some c else last) := by
  cases hw : c.writes m with
  | false =>
    rw [Call.store_perform_of_not_writes hw]
    exact h.wait c.wait
  | true =>
    obtain ⟨version, hv, hstore⟩ := Call.store_perform_of_writes hc hw
    rw [hstore]
    refine ⟨?_, ?_⟩
    · rw [Call.find?_stored_schema]
      simp [hv]
    · intro file hfile
      rw [Call.find?_stored_marker] at hfile
      by_cases hm : versionKey ∈ c.failing
      · -- The marker of an earlier call stays, and nothing is said about whose it is.
        rw [if_pos hm] at hfile
        obtain ⟨-, v, -, hbytes, htrim, -⟩ := h.marker file hfile
        exact ⟨c, v, by simp, hbytes, htrim, fun hn => absurd hm hn⟩
      · rw [if_neg hm] at hfile
        obtain rfl := Option.some.inj hfile
        exact ⟨c, version, by simp, rfl, hc.trimmed version hv, fun _ => hv⟩

/-- **Any run of calls keeps the invariant.** -/
theorem traced_performAll {calls : List Call} (hcalls : ∀ d ∈ calls, d.Honest body)
    (h : Traced body m last) : Traced body (performAll calls m) (lastWriter calls m last) := by
  induction calls generalizing m last with
  | nil => exact h
  | cons c rest ih =>
    exact ih (fun d hd => hcalls d (List.mem_cons_of_mem c hd))
      (traced_perform (hcalls c List.mem_cons_self) h)

/-! ## What is compiled -/

theorem isMarkedAs_encode {v : String} (hv : Text.trim v = v) :
    isMarkedAs version (Text.encode v) = decide (v = version) := by
  rw [isMarkedAs, Text.decodeLossy_encode, hv]

theorem Traced.compileStored {schema : Schema} (h : Traced body m last)
    (hs : m.compileStored = .ok schema) :
    ∃ d v, last = some d ∧ d.version? = some v ∧ Schema.compile (body v) = .ok schema := by
  rw [Memory.compileStored] at hs
  cases hfile : m.find? schemaKey with
  | none =>
    rw [hfile] at hs
    exact absurd hs (by simp)
  | some file =>
    rw [hfile] at hs
    have hdoc := h.document
    rw [hfile, Option.map_some] at hdoc
    obtain ⟨v, hv, hbody⟩ := Option.map_eq_some_iff.mp hdoc.symm
    obtain ⟨d, rfl, hd⟩ := Option.bind_eq_some_iff.mp hv
    refine ⟨d, v, rfl, hd, ?_⟩
    rw [hbody]
    cases hcompile : Schema.compile file.bytes with
    | error e =>
      simp only [hcompile] at hs
      have hfail : (.error (.schemaDocument e) : Except Failure Schema) = .ok schema := hs
      exact absurd hfail (by simp)
    | ok s =>
      simp only [hcompile] at hs
      rw [Except.ok.inj hs]

/-- A fresh record whose last writer wrote the marker too is of the version asked for. -/
theorem Traced.version_of_fresh {maxAge : Nat} {d : Call} (h : Traced body m (some d))
    (hf : m.isFreshFor maxAge version = true) (hd : versionKey ∉ d.failing) :
    d.version? = some version := by
  rw [Memory.isFreshFor] at hf
  cases hmarker : m.find? versionKey with
  | none =>
    rw [hmarker] at hf
    exact absurd hf (by simp)
  | some file =>
    obtain ⟨d', v, hlast, hbytes, htrim, hv⟩ := h.marker file hmarker
    obtain rfl := Option.some.inj hlast
    have hmarked : isMarkedAs version file.bytes = true := by
      rw [hmarker] at hf
      cases hdoc : m.find? schemaKey with
      | none => simp [hdoc] at hf
      | some document =>
        rw [hdoc] at hf
        exact (Bool.and_eq_true _ _ ▸ hf).1
    rw [hbytes, isMarkedAs_encode htrim, decide_eq_true_eq] at hmarked
    rw [hv hd, hmarked]

/-- **The schema of a call** that succeeds is compiled from the document of the last call that wrote
one, this call included.  That is the document of its own version, unless that last call failed
between its two writes and this call found the record fresh. -/
theorem compiled_document_of_last_writer {calls : List Call} {schema : Schema}
    (hm : m.files = []) (hcalls : ∀ d ∈ calls ++ [c], d.Honest body)
    (h : (c.perform (performAll calls m)).result = .ok schema) :
    ∃ d version written, c.version? = some version ∧
      lastWriter (calls ++ [c]) m none = some d ∧ d.version? = some written ∧
      Schema.compile (body written) = .ok schema ∧
      (written = version ∨
        versionKey ∈ d.failing ∧ (c.perform (performAll calls m)).fetched = []) := by
  have hbefore : Traced body (performAll calls m) (lastWriter calls m none) :=
    traced_performAll (fun d hd => hcalls d (List.mem_append_left _ hd)) (traced_empty hm)
  have hc : c.Honest body := hcalls c (List.mem_append_right _ List.mem_cons_self)
  have hafter := traced_perform hc hbefore
  have hlast : lastWriter (calls ++ [c]) m none =
      if c.writes (performAll calls m) then some c else lastWriter calls m none := by
    rw [lastWriter_append]
    rfl
  rw [← hlast] at hafter
  cases hv : c.version? with
  | none =>
    rw [Call.perform_of_no_version hv] at h
    exact absurd h (by simp)
  | some version =>
    cases hf : ((performAll calls m).wait c.wait).isFreshFor c.maxAge version with
    | true =>
      rw [Call.perform_of_fresh hv hf] at h hafter ⊢
      obtain ⟨d, written, hd, hwritten, hcompile⟩ := hafter.compileStored h
      refine ⟨d, version, written, rfl, hd, hwritten, hcompile, ?_⟩
      by_cases hfail : versionKey ∈ d.failing
      · exact .inr ⟨hfail, rfl⟩
      · rw [hd] at hafter
        have := hafter.version_of_fresh hf hfail
        exact .inl (Option.some.inj (hwritten.symm.trans this))
    | false =>
      have hperform := Call.perform_of_stale hv hf
      cases hb : c.fetch c.url with
      | error f =>
        rw [hperform, hb] at h
        exact absurd h (by simp)
      | ok bytes =>
        rw [hperform, hb] at h
        by_cases hs : schemaKey ∈ c.failing
        · simp [hs] at h
        · by_cases hk : versionKey ∈ c.failing
          · simp [hs, hk] at h
          · simp only [if_neg hs, if_neg hk] at h
            have hw := Call.writes_of_stale hv hf hb hs
            rw [hw, if_pos rfl] at hlast
            obtain ⟨v, hv', hstore⟩ := Call.store_perform_of_writes hc hw
            obtain rfl : version = v := Option.some.inj (hv.symm.trans hv')
            obtain rfl := hc.answers version bytes hv hb
            rw [hstore] at hafter
            obtain ⟨d, written, hd, hwritten, hcompile⟩ := hafter.compileStored h
            refine ⟨d, version, written, rfl, hd, hwritten, hcompile, .inl ?_⟩
            obtain rfl : c = d := Option.some.inj (hlast.symm.trans hd)
            exact Option.some.inj (hwritten.symm.trans hv)

/-! ## A torn record -/

/-- The documents of two versions. -/
def twoBodies (version : String) : Bytes := Text.encode (if version = "1" then "true" else "false")

def versionCall (version : String) (failing : List String) : Call :=
  ⟨"h/" ++ version ++ "/s", 10, 0, failing, fun _ => .ok (twoBodies version)⟩

/-- A call of version 1 that completes, and one of version 2 that cannot write its marker. -/
def tornRun : List Call := [versionCall "1" [], versionCall "2" [versionKey]]

def emptyStore : Memory := ⟨[], 0⟩

def compiledText (result : Except Failure Schema) : Option String :=
  (result.map fun schema => schema.document.render).toOption

/-- What is asked of the calls holds of those of the two versions. -/
theorem honest_versionCall (failing : List String) :
    (versionCall "1" failing).Honest twoBodies ∧ (versionCall "2" failing).Honest twoBodies := by
  have h1 : versionOf? "h/1/s" = some "1" := by decide
  have h2 : versionOf? "h/2/s" = some "2" := by decide
  refine ⟨⟨?_, ?_⟩, ⟨?_, ?_⟩⟩
  · intro v hv
    obtain rfl : "1" = v := Option.some.inj (h1.symm.trans hv)
    decide
  · intro v bytes hv hb
    obtain rfl : "1" = v := Option.some.inj (h1.symm.trans hv)
    exact (Except.ok.inj hb).symm
  · intro v hv
    obtain rfl : "2" = v := Option.some.inj (h2.symm.trans hv)
    decide
  · intro v bytes hv hb
    obtain rfl : "2" = v := Option.some.inj (h2.symm.trans hv)
    exact (Except.ok.inj hb).symm

/-- The calls of the run, and the one after it, are honest. -/
theorem honest_tornRun : ∀ d ∈ tornRun ++ [versionCall "1" []], d.Honest twoBodies := by
  intro d hd
  rcases List.mem_append.mp hd with hd | hd
  · rcases List.mem_cons.mp hd with rfl | hd
    · exact (honest_versionCall []).1
    · rw [List.mem_singleton.mp hd]
      exact (honest_versionCall [versionKey]).2
  · rw [List.mem_singleton.mp hd]
    exact (honest_versionCall []).1

theorem compiledText_after_tornRun :
    compiledText ((versionCall "1" []).perform (performAll tornRun emptyStore)).result =
      some "false" := by
  decide +kernel

/-- After the torn run a call of version 1 is served the document of version 2, without a fetch. -/
theorem torn_record_is_served :
    (∀ d ∈ tornRun ++ [versionCall "1" []], d.Honest twoBodies) ∧
      (versionCall "1" []).version? = some "1" ∧
      compiledText ((versionCall "1" []).perform (performAll tornRun emptyStore)).result =
        some "false" ∧
      compiledText (Schema.compile (twoBodies "1") |>.mapError .schemaDocument) = some "true" ∧
      ((versionCall "1" []).perform (performAll tornRun emptyStore)).fetched = [] :=
  ⟨honest_tornRun, by decide, compiledText_after_tornRun, by decide +kernel, by decide +kernel⟩

/-- The last writer of the torn run is the call of version 2. -/
theorem compiled_document_after_tornRun :
    ∃ schema, ((versionCall "1" []).perform (performAll tornRun emptyStore)).result = .ok schema ∧
      ∃ d version written, (versionCall "1" []).version? = some version ∧
        lastWriter (tornRun ++ [versionCall "1" []]) emptyStore none = some d ∧
        d.version? = some written ∧ Schema.compile (twoBodies written) = .ok schema ∧
        (written = version ∨ versionKey ∈ d.failing ∧
          ((versionCall "1" []).perform (performAll tornRun emptyStore)).fetched = []) := by
  have hserved := compiledText_after_tornRun
  cases h : ((versionCall "1" []).perform (performAll tornRun emptyStore)).result with
  | error f =>
    rw [h] at hserved
    exact absurd hserved (by simp [compiledText, Except.map, Except.toOption])
  | ok schema =>
    exact ⟨schema, rfl, compiled_document_of_last_writer rfl honest_tornRun h⟩

end PluginManager.Cache
