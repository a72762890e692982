import PluginManager.Proofs.Cache.Provenance

/-!
# How long a bad document is kept

A document is stored before it is compiled, so one that is no schema is kept like any other.

* `Keeps`: the record of a version, its document and when it was written.
* `Keeps.perform`: a call within the greatest age answers from it; `Keeps.performAll`: **so does
  each call of a run**.
* `bad_download_is_kept`: a call after a bad download fails alike without a fetch until the document
  is too old, and then fetches again.
* `bad_download_is_served_again`: a good document that is there by then is not looked for.
-/

namespace PluginManager.Cache

variable {m : Memory} {c d : Call} {version : String} {body : Bytes} {t : Int}

/-! ## A record that is kept -/

/-- The store has the document under the version since `t`. -/
def Keeps (version : String) (body : Bytes) (t : Int) (m : Memory) : Prop :=
  (m.find? versionKey).map StoredFile.bytes = some (Text.encode version) ∧
    m.find? schemaKey = some ⟨body, t⟩

theorem Keeps.compileStored (h : Keeps version body t m) :
    m.compileStored = (Schema.compile body).mapError .schemaDocument := by
  rw [Memory.compileStored, h.2]

/-- Only a version without blanks around it is recognised in its marker. -/
theorem Keeps.isFreshFor (h : Keeps version body t m) (maxAge : Nat) :
    m.isFreshFor maxAge version =
      (decide (Text.trim version = version) && isFresh m.clock t maxAge) := by
  obtain ⟨marker, hmarker, hbytes⟩ := Option.map_eq_some_iff.mp h.1
  rw [Memory.isFreshFor, hmarker, h.2]
  show (isMarkedAs version marker.bytes && _) = _
  rw [hbytes, isMarkedAs, Text.decodeLossy_encode]

/-- **A call within the greatest age answers from the record** and leaves it. -/
theorem Keeps.perform (h : Keeps version body t m) (hv : d.version? = some version)
    (htrim : Text.trim version = version) (hage : isFresh (m.clock + d.wait) t d.maxAge = true) :
    d.perform m = ⟨(Schema.compile body).mapError .schemaDocument, [], m.wait d.wait⟩ := by
  have hkeeps : Keeps version body t (m.wait d.wait) := h
  have hfresh : (m.wait d.wait).isFreshFor d.maxAge version = true := by
    rw [hkeeps.isFreshFor, htrim, decide_eq_true rfl]
    exact hage
  rw [Call.perform_of_fresh hv hfresh, hkeeps.compileStored]

/-- **So does each call of a run**, as long as the record is young enough for all of them. -/
theorem Keeps.performAll {calls : List Call} (h : Keeps version body t m)
    (htrim : Text.trim version = version)
    (hcalls : ∀ before e after, calls = before ++ e :: after → e.version? = some version ∧
      isFresh ((Cache.performAll before m).clock + e.wait) t e.maxAge = true) :
    Keeps version body t (Cache.performAll calls m) := by
  induction calls generalizing m with
  | nil => exact h
  | cons e rest ih =>
    obtain ⟨hv, hage⟩ := hcalls [] e rest rfl
    have hkeeps : Keeps version body t (e.perform m).store := by
      rw [h.perform hv htrim hage]
      exact h
    exact ih hkeeps fun before x after hrest =>
      hcalls (e :: before) x after (by rw [hrest, List.cons_append])

/-! ## Bad downloads -/

/-- A call that stored what it fetched and failed over it. -/
structure BadDownload (c : Call) (m : Memory) (body : Bytes) (defect : Schema.Defect) : Prop where
  answer : c.fetch c.url = .ok body
  fetched : (c.perform m).fetched ≠ []
  result : (c.perform m).result = .error (.schemaDocument defect)

/-- The body is no schema, and it is in the store with its version. -/
theorem BadDownload.keeps {defect : Schema.Defect} (h : BadDownload c m body defect) :
    ∃ version, c.version? = some version ∧ Schema.compile body = .error defect ∧
      Keeps version body (m.clock + c.wait) (c.perform m).store ∧
      (c.perform m).store.clock = m.clock + c.wait := by
  have hfetched := h.fetched
  have hresult := h.result
  cases hv : c.version? with
  | none =>
    rw [Call.perform_of_no_version hv] at hfetched
    exact absurd rfl hfetched
  | some version =>
    cases hf : (m.wait c.wait).isFreshFor c.maxAge version with
    | true =>
      rw [Call.perform_of_fresh hv hf] at hfetched
      exact absurd rfl hfetched
    | false =>
      rw [Call.perform_of_stale hv hf, h.answer] at hresult ⊢
      by_cases hs : schemaKey ∈ c.failing
      · simp [hs, faultFailure] at hresult
      · by_cases hk : versionKey ∈ c.failing
        · simp [hs, hk, faultFailure] at hresult
        · simp only [if_neg hs, if_neg hk] at hresult ⊢
          have hkeeps : Keeps version body (m.clock + c.wait)
              (c.stored (m.wait c.wait) version body) := by
            refine ⟨?_, Call.find?_stored_schema version body⟩
            rw [Call.find?_stored_marker, if_neg hk]
            rfl
          refine ⟨version, rfl, ?_, hkeeps, ?_⟩
          · rw [hkeeps.compileStored] at hresult
            cases hcompile : Schema.compile body with
            | ok schema =>
              rw [hcompile] at hresult
              cases hresult
            | error e =>
              rw [hcompile] at hresult
              rw [Failure.schemaDocument.inj (Except.error.inj hresult)]
          · rw [Call.stored, if_neg hk]
            rfl

/-- **A bad download is kept like any other.**  The next call of the address fails alike, without a
fetch and without a change, until the document has the greatest age.  From then on, and at any time
if there are blanks around the version, it fetches again, and with a schema it succeeds. -/
theorem bad_download_is_kept {defect : Schema.Defect} (h : BadDownload c m body defect)
    (hurl : d.url = c.url) (hwait : 0 ≤ d.wait) :
    Schema.compile body = .error defect ∧ ∃ version, versionOf? c.url = some version ∧
      (Text.trim version = version → d.wait < d.maxAge →
        d.perform (c.perform m).store =
          ⟨.error (.schemaDocument defect), [], (c.perform m).store.wait d.wait⟩) ∧
      (Text.trim version ≠ version ∨ d.maxAge ≤ d.wait →
        (d.perform (c.perform m).store).fetched = [c.url] ∧
        ∀ good schema, d.fetch c.url = .ok good → Schema.compile good = .ok schema →
          schemaKey ∉ d.failing → versionKey ∉ d.failing →
          (d.perform (c.perform m).store).result = .ok schema) := by
  obtain ⟨version, hv, hcompile, hkeeps, hclock⟩ := h.keeps
  have hvd : d.version? = some version := by rw [Call.version?, hurl]; exact hv
  have hfresh : isFresh ((c.perform m).store.clock + d.wait) (m.clock + c.wait) d.maxAge =
      decide (d.wait < d.maxAge) := by
    rw [isFresh, hclock]
    exact decide_eq_decide.mpr (by omega)
  refine ⟨hcompile, version, hv, ?_, ?_⟩
  · intro htrim hyoung
    rw [hkeeps.perform hvd htrim (by rw [hfresh, decide_eq_true hyoung]), hcompile]
    rfl
  · intro hagain
    have hstale : ((c.perform m).store.wait d.wait).isFreshFor d.maxAge version = false := by
      have hwaited : Keeps version body (m.clock + c.wait) ((c.perform m).store.wait d.wait) :=
        hkeeps
      rw [hwaited.isFreshFor, Bool.and_eq_false_iff, decide_eq_false_iff_not]
      refine hagain.imp id fun hold => ?_
      exact hfresh.trans (decide_eq_false (by omega))
    rw [Call.perform_of_stale hvd hstale, hurl]
    refine ⟨?_, ?_⟩
    · cases d.fetch c.url with
      | error f => rfl
      | ok good =>
        dsimp only
        split
        · rfl
        · split <;> rfl
    · intro good schema hgood hschema hs hk
      rw [hgood]
      simp only [if_neg hs, if_neg hk, Memory.compileStored, Call.find?_stored_schema, hschema]
      rfl

/-- A call of version 1 that is answered with the text. -/
def answeredCall (wait : Int) (text : String) : Call :=
  ⟨"h/1/s", 10, wait, [], fun _ => .ok (Text.encode text)⟩

def failsToCompile : Except Failure Schema → Bool
  | .error (.schemaDocument _) => true
  | _ => false

/-- A page is downloaded in place of the schema. -/
theorem badDownload_page : ∃ defect,
    BadDownload (answeredCall 0 "<html>") emptyStore (Text.encode "<html>") defect := by
  have hfails :
      failsToCompile ((answeredCall 0 "<html>").perform emptyStore).result = true := by
    decide +kernel
  cases h : ((answeredCall 0 "<html>").perform emptyStore).result with
  | ok schema => rw [h] at hfails; exact absurd hfails (by simp [failsToCompile])
  | error f =>
    cases f <;> simp only [h, failsToCompile, Bool.false_eq_true] at hfails
    exact ⟨_, rfl, by decide +kernel, h⟩

/-- The page is answered from within the greatest age, and not after it. -/
theorem bad_download_is_kept_page :
    ∃ defect, BadDownload (answeredCall 0 "<html>") emptyStore (Text.encode "<html>") defect ∧
      ((answeredCall 9 "true").perform
        ((answeredCall 0 "<html>").perform emptyStore).store).result =
          .error (.schemaDocument defect) ∧
      ((answeredCall 10 "true").perform
        ((answeredCall 0 "<html>").perform emptyStore).store).fetched = ["h/1/s"] := by
  obtain ⟨defect, hbad⟩ := badDownload_page
  have hversion : versionOf? "h/1/s" = some "1" := by decide
  obtain ⟨-, version, hv, hyoung, -⟩ :=
    bad_download_is_kept (d := answeredCall 9 "true") hbad rfl (by decide)
  obtain ⟨-, version', -, -, hold⟩ :=
    bad_download_is_kept (d := answeredCall 10 "true") hbad rfl (by decide)
  obtain rfl : "1" = version := Option.some.inj (hversion.symm.trans hv)
  exact ⟨defect, hbad, by rw [hyoung (by decide) (by decide)], (hold (.inr (by decide))).1⟩

/-- The call after the page is served it again, although a schema is there to be fetched. -/
theorem bad_download_is_served_again :
    (∃ defect, BadDownload (answeredCall 0 "<html>") emptyStore (Text.encode "<html>") defect) ∧
      (∃ schema, Schema.compile (Text.encode "true") = .ok schema) ∧
      ((answeredCall 1 "true").perform
        ((answeredCall 0 "<html>").perform emptyStore).store).fetched = [] ∧
      failsToCompile ((answeredCall 1 "true").perform
        ((answeredCall 0 "<html>").perform emptyStore).store).result = true := by
  have hgood : (Schema.compile (Text.encode "true")).isOk = true := by decide +kernel
  refine ⟨badDownload_page, ?_, by decide +kernel, by decide +kernel⟩
  cases h : Schema.compile (Text.encode "true") with
  | error e => rw [h] at hgood; exact absurd hgood (by simp [Except.isOk, Except.toBool])
  | ok schema => exact ⟨schema, rfl⟩

end PluginManager.Cache
