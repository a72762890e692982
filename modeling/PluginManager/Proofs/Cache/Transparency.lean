import PluginManager.Proofs.Cache.Provenance

/-!
# The cache is transparent

As long as writes succeed, a call answers what it would answer without a cache, whatever was called
before, however much time has passed and whichever files of the cache were deleted.

* `Paired`: the invariant.  A document beside a marker is the document of the marker's version.
* `Event.paired_after`, `paired_afterAll`: every event keeps it, and so does every run of events.
* `Held`: the record of a version, kept from the fetch on until something else is fetched or
  deleted.
* `answers_and_spacing`: **every answer is one of an uncached call**, and the fetches of a version
  are as far apart as the greatest age.
-/

namespace PluginManager.Cache

/-! ## Events -/

/-- What happens to the cache: a call, some time after the one before it, or a deletion. -/
inductive Event where
  | call (c : Call)
  | delete (key : String)

def Event.after : Event → Memory → Memory
  | call c, m => (c.perform m).store
  | delete key, m => m.forget key

def afterAll (events : List Event) (m : Memory) : Memory :=
  events.foldl (fun m event => event.after m) m

theorem afterAll_append (before after : List Event) (m : Memory) :
    afterAll (before ++ after) m = afterAll after (afterAll before m) := List.foldl_append

/-- The clock does not go back before the call, and the files can be written. -/
structure Call.Steady (body : String → Bytes) (c : Call) : Prop extends c.Honest body where
  wait : 0 ≤ c.wait
  writable : c.failing = []

def Event.Steady (body : String → Bytes) : Event → Prop
  | call c => c.Steady body
  | delete _ => True

/-- The call fetches a document. -/
def Call.Fetches (c : Call) (m : Memory) : Prop :=
  (c.perform m).fetched ≠ [] ∧ ∃ bytes, c.fetch c.url = .ok bytes

/-- What a call answers that has no cache: the address is of no use, the fetch fails with an error
of its own, or the document of the version is compiled. -/
inductive Call.Answers (body : String → Bytes) (c : Call) (result : Except Failure Schema) : Prop
  | misaddressed : c.version? = none → result = .error (.schemaUrl c.url) → Answers body c result
  | offline (f : Failure) : c.fetch c.url = .error f → result = .error f → Answers body c result
  | compiled (version : String) : c.version? = some version →
      result = (Schema.compile (body version)).mapError .schemaDocument → Answers body c result

/-- Nothing is deleted, and no other version is fetched. -/
def Undisturbed (version : String) : List Event → Memory → Prop
  | [], _ => True
  | .delete _ :: _, _ => False
  | .call c :: rest, m =>
    (c.Fetches m → c.version? = some version) ∧ Undisturbed version rest (c.perform m).store

variable {body : String → Bytes} {m : Memory} {c : Call} {version : String} {event : Event}
  {events : List Event}

/-! ## Deleted files -/

theorem Memory.find?_forget_self (m : Memory) (key : String) : (m.forget key).find? key = none := by
  rw [find?, forget, List.lookup_eq_none_iff]
  intro x hx
  have hne : x.1 ≠ key := by simpa using (List.mem_filter.mp hx).2
  exact bne_iff_ne.mpr hne.symm

theorem Memory.find?_forget_of_ne (m : Memory) {key other : String} (h : other ≠ key) :
    (m.forget key).find? other = m.find? other := by
  have hput := m.find?_put_of_ne ⟨[], 0⟩ h
  rwa [find?, put, List.lookup_cons, beq_false_of_ne h] at hput

/-- A file that is there after a deletion was there before. -/
theorem Memory.find?_of_forget {key other : String} {file : StoredFile}
    (h : (m.forget key).find? other = some file) : m.find? other = some file := by
  by_cases hk : other = key
  · rw [hk, find?_forget_self] at h
    exact absurd h (by simp)
  · rwa [find?_forget_of_ne m hk] at h

/-! ## Calls that can write -/

theorem Call.Steady.find?_stored_marker (hc : c.Steady body) (version : String) (bytes : Bytes) :
    (c.stored m version bytes).find? versionKey = some ⟨Text.encode version, m.clock⟩ := by
  rw [Call.find?_stored_marker, hc.writable]
  rfl

/-- A call on a stale record fails with its fetch, or leaves the record of its version. -/
theorem Call.Steady.perform_of_stale (hc : c.Steady body) (hv : c.version? = some version)
    (hf : (m.wait c.wait).isFreshFor c.maxAge version = false) :
    (∃ f, c.fetch c.url = .error f ∧ c.perform m = ⟨.error f, [c.url], m.wait c.wait⟩) ∨
    (c.fetch c.url = .ok (body version) ∧
      c.perform m =
        ⟨(Schema.compile (body version)).mapError .schemaDocument, [c.url],
          c.stored (m.wait c.wait) version (body version)⟩) := by
  rw [Call.perform_of_stale hv hf]
  cases hb : c.fetch c.url with
  | error f => exact .inl ⟨f, rfl, rfl⟩
  | ok bytes =>
    obtain rfl := hc.answers version bytes hv hb
    right
    simp only [hc.writable, List.not_mem_nil, if_false, true_and]
    rw [Memory.compileStored, Call.find?_stored_schema]

/-! ## The invariant -/

/-- Where both files are there, the document is that of the version in the marker. -/
def Paired (body : String → Bytes) (m : Memory) : Prop :=
  ∀ marker document, m.find? versionKey = some marker → m.find? schemaKey = some document →
    ∃ version, Text.trim version = version ∧ marker.bytes = Text.encode version ∧
      document.bytes = body version

theorem paired_of_empty (hm : m.files = []) : Paired body m := by
  intro marker document hmarker
  rw [Memory.find?, hm] at hmarker
  exact absurd hmarker (by simp)

theorem Paired.wait (h : Paired body m) (seconds : Int) : Paired body (m.wait seconds) := h

theorem Paired.forget (h : Paired body m) (key : String) : Paired body (m.forget key) :=
  fun marker document hmarker hdocument =>
    h marker document (Memory.find?_of_forget hmarker) (Memory.find?_of_forget hdocument)

theorem paired_stored (hc : c.Steady body) (hv : c.version? = some version) :
    Paired body (c.stored m version (body version)) := by
  intro marker document hmarker hdocument
  rw [hc.find?_stored_marker] at hmarker
  rw [Call.find?_stored_schema] at hdocument
  obtain rfl := Option.some.inj hmarker
  obtain rfl := Option.some.inj hdocument
  exact ⟨version, hc.trimmed version hv, rfl, rfl⟩

/-- A fresh record is that of the version asked for. -/
theorem Paired.compileStored_of_fresh {maxAge : Nat} (h : Paired body m)
    (hf : m.isFreshFor maxAge version = true) :
    m.compileStored = (Schema.compile (body version)).mapError .schemaDocument := by
  rw [Memory.isFreshFor] at hf
  cases hmarker : m.find? versionKey with
  | none =>
    rw [hmarker] at hf
    exact absurd hf (by simp)
  | some marker =>
    cases hdocument : m.find? schemaKey with
    | none =>
      rw [hmarker, hdocument] at hf
      exact absurd hf (by simp)
    | some document =>
      obtain ⟨v, htrim, hmarked, hbody⟩ := h marker document hmarker hdocument
      simp only [hmarker, hdocument, hmarked, isMarkedAs_encode htrim, Bool.and_eq_true,
        decide_eq_true_eq] at hf
      rw [Memory.compileStored, hdocument, ← hf.1, ← hbody]

/-- **An event keeps the invariant.** -/
theorem Event.paired_after (hevent : event.Steady body) (h : Paired body m) :
    Paired body (event.after m) := by
  cases event with
  | delete key => exact h.forget key
  | call c =>
    show Paired body (c.perform m).store
    cases hv : c.version? with
    | none =>
      rw [Call.perform_of_no_version hv]
      exact h.wait c.wait
    | some version =>
      cases hf : (m.wait c.wait).isFreshFor c.maxAge version with
      | true =>
        rw [Call.perform_of_fresh hv hf]
        exact h.wait c.wait
      | false =>
        rcases Call.Steady.perform_of_stale hevent hv hf with ⟨f, -, heq⟩ | ⟨-, heq⟩
        · rw [heq]
          exact h.wait c.wait
        · rw [heq]
          exact paired_stored hevent hv

/-- **Any run of events keeps the invariant.** -/
theorem paired_afterAll (hevents : ∀ event ∈ events, event.Steady body) (h : Paired body m) :
    Paired body (afterAll events m) := by
  induction events generalizing m with
  | nil => exact h
  | cons event rest ih =>
    exact ih (fun e he => hevents e (List.mem_cons_of_mem event he))
      (Event.paired_after (hevents event List.mem_cons_self) h)

theorem Paired.answers (hc : c.Steady body) (h : Paired body m) :
    c.Answers body (c.perform m).result := by
  cases hv : c.version? with
  | none => exact .misaddressed hv (by rw [Call.perform_of_no_version hv])
  | some version =>
    cases hf : (m.wait c.wait).isFreshFor c.maxAge version with
    | true =>
      refine .compiled version hv ?_
      rw [Call.perform_of_fresh hv hf]
      exact (h.wait c.wait).compileStored_of_fresh hf
    | false =>
      rcases hc.perform_of_stale hv hf with ⟨f, hfetch, heq⟩ | ⟨-, heq⟩
      · exact .offline f hfetch (by rw [heq])
      · exact .compiled version hv (by rw [heq])

/-! ## How far fetches are apart -/

/-- The record is that of the version, and was written at `t` or later. -/
def Held (version : String) (t : Int) (m : Memory) : Prop :=
  ∃ marker document, m.find? versionKey = some marker ∧ m.find? schemaKey = some document ∧
    marker.bytes = Text.encode version ∧ t ≤ document.modified ∧ document.modified ≤ m.clock

theorem Held.wait {t seconds : Int} (h : Held version t m) (hs : 0 ≤ seconds) :
    Held version t (m.wait seconds) := by
  obtain ⟨marker, document, hmarker, hdocument, hmarked, ht, hclock⟩ := h
  refine ⟨marker, document, hmarker, hdocument, hmarked, ht, ?_⟩
  rw [Memory.wait]
  show document.modified ≤ m.clock + seconds
  omega

/-- A call that fetches does so on a stale record, and leaves the record of its version. -/
theorem Call.Steady.store_of_fetches (hc : c.Steady body) (hv : c.version? = some version)
    (hfetches : c.Fetches m) : (m.wait c.wait).isFreshFor c.maxAge version = false ∧
      (c.perform m).store = c.stored (m.wait c.wait) version (body version) := by
  obtain ⟨hfetched, bytes, hbytes⟩ := hfetches
  cases hf : (m.wait c.wait).isFreshFor c.maxAge version with
  | true =>
    rw [Call.perform_of_fresh hv hf] at hfetched
    exact absurd rfl hfetched
  | false =>
    rcases hc.perform_of_stale hv hf with ⟨f, hfetch, -⟩ | ⟨-, heq⟩
    · rw [hbytes] at hfetch
      exact absurd hfetch (by simp)
    · exact ⟨rfl, by rw [heq]⟩

theorem Call.Steady.store_of_not_fetches (hc : c.Steady body) (hn : ¬ c.Fetches m) :
    (c.perform m).store = m.wait c.wait := by
  cases hv : c.version? with
  | none => rw [Call.perform_of_no_version hv]
  | some version =>
    cases hf : (m.wait c.wait).isFreshFor c.maxAge version with
    | true => rw [Call.perform_of_fresh hv hf]
    | false =>
      rcases hc.perform_of_stale hv hf with ⟨f, -, heq⟩ | ⟨hfetch, heq⟩
      · rw [heq]
      · exact absurd ⟨by rw [heq]; simp, _, hfetch⟩ hn

theorem held_of_fetches (hc : c.Steady body) (hv : c.version? = some version)
    (hfetches : c.Fetches m) : Held version (m.clock + c.wait) (c.perform m).store := by
  rw [(hc.store_of_fetches hv hfetches).2]
  refine ⟨_, _, hc.find?_stored_marker version _, Call.find?_stored_schema version _, rfl,
    Int.le_refl _, ?_⟩
  rw [Call.stored]
  split <;> exact Int.le_refl _

/-- **What does not disturb the record of a version** leaves it there. -/
theorem Held.afterAll {t : Int} (hevents : ∀ event ∈ events, event.Steady body)
    (hu : Undisturbed version events m) (h : Held version t m) :
    Held version t (afterAll events m) := by
  induction events generalizing m with
  | nil => exact h
  | cons event rest ih =>
    cases event with
    | delete key => exact hu.elim
    | call c =>
      have hc : c.Steady body := hevents (.call c) List.mem_cons_self
      refine ih (fun e he => hevents e (List.mem_cons_of_mem _ he)) hu.2 ?_
      show Held version t (c.perform m).store
      have hwait := h.wait hc.wait
      by_cases hfetches : c.Fetches m
      · obtain ⟨_, _, -, -, -, ht, hclock⟩ := hwait
        obtain ⟨marker, document, hmarker, hdocument, hmarked, hwritten, hpresent⟩ :=
          held_of_fetches hc (hu.1 hfetches) hfetches
        refine ⟨marker, document, hmarker, hdocument, hmarked, ?_, hpresent⟩
        have : (m.wait c.wait).clock = m.clock + c.wait := rfl
        omega
      · rw [hc.store_of_not_fetches hfetches]
        exact hwait

/-- A held record that is stale has reached the greatest age. -/
theorem Held.le_of_stale {t : Int} {maxAge : Nat} (h : Held version t m)
    (htrim : Text.trim version = version) (hf : m.isFreshFor maxAge version = false) :
    t + maxAge ≤ m.clock := by
  obtain ⟨marker, document, hmarker, hdocument, hmarked, ht, hclock⟩ := h
  have hold : isFresh m.clock document.modified maxAge = false := by
    simpa [Memory.isFreshFor, hmarker, hdocument, hmarked, isMarkedAs_encode htrim] using hf
  rw [isFresh, decide_eq_false_iff_not] at hold
  omega

/-! ## Transparency -/

/-- **The cache is transparent.**  In every run from an empty store each call answers as one without
a cache, and a version that is fetched is not fetched again before the greatest age, unless a file
is deleted or another version is fetched in between. -/
theorem answers_and_spacing (hm : m.files = []) (hevents : ∀ event ∈ events, event.Steady body) :
    (∀ before c after, events = before ++ .call c :: after →
      c.Answers body (c.perform (afterAll before m)).result) ∧
    (∀ before c between c' after version,
      events = before ++ .call c :: between ++ .call c' :: after →
      c.version? = some version → c'.version? = some version →
      c.Fetches (afterAll before m) →
      c'.Fetches (afterAll (before ++ .call c :: between) m) →
      Undisturbed version between (afterAll (before ++ [.call c]) m) →
      ((afterAll before m).wait c.wait).clock + c'.maxAge ≤
        ((afterAll (before ++ .call c :: between) m).wait c'.wait).clock) := by
  refine ⟨?_, ?_⟩
  · rintro before c after rfl
    have hbefore : Paired body (afterAll before m) :=
      paired_afterAll (fun e he => hevents e (List.mem_append_left _ he)) (paired_of_empty hm)
    exact hbefore.answers (hevents (.call c) (by simp))
  · rintro before c between c' after version rfl hv hv' hfetches hfetches' hu
    have hc : c.Steady body := hevents (.call c) (by simp)
    have hc' : c'.Steady body := hevents (.call c') (by simp)
    have hbetween : ∀ event ∈ between, event.Steady body := by
      intro e he
      exact hevents e (by simp [he])
    rw [afterAll_append] at hfetches' hu ⊢
    have hheld := (held_of_fetches hc hv hfetches).afterAll hbetween hu
    exact (hheld.wait hc'.wait).le_of_stale (hc'.trimmed version hv')
      (hc'.store_of_fetches hv' hfetches').1

def callAfter (wait : Int) (version : String) : Call :=
  { versionCall version [] with wait := wait }

theorem steady_callAfter {wait : Int} (hw : 0 ≤ wait) :
    (callAfter wait "1").Steady twoBodies ∧ (callAfter wait "2").Steady twoBodies := by
  obtain ⟨h₁, h₂⟩ := honest_versionCall []
  exact ⟨⟨⟨h₁.trimmed, h₁.answers⟩, hw, rfl⟩, ⟨⟨h₂.trimmed, h₂.answers⟩, hw, rfl⟩⟩

/-- Version 1 after version 2 and a deletion, again while it is fresh, and once more when not. -/
def agingRun : List Event :=
  [.call (callAfter 0 "2"), .delete versionKey, .call (callAfter 0 "1"), .call (callAfter 3 "1"),
    .call (callAfter 9 "1")]

theorem answers_and_spacing_agingRun :
    (∀ event ∈ agingRun, event.Steady twoBodies) ∧
      (callAfter 3 "1").Answers twoBodies
        ((callAfter 3 "1").perform (afterAll (agingRun.take 3) emptyStore)).result ∧
      ((afterAll (agingRun.take 2) emptyStore).wait 0).clock + 10 ≤
        ((afterAll (agingRun.take 4) emptyStore).wait 9).clock := by
  have hsteady : ∀ event ∈ agingRun, event.Steady twoBodies := by
    intro event hevent
    simp only [agingRun, List.mem_cons, List.not_mem_nil, or_false] at hevent
    rcases hevent with rfl | rfl | rfl | rfl | rfl
    · exact (steady_callAfter (by decide)).2
    · trivial
    · exact (steady_callAfter (by decide)).1
    · exact (steady_callAfter (by decide)).1
    · exact (steady_callAfter (by decide)).1
  have hversion : ∀ wait, (callAfter wait "1").version? = some "1" := fun wait => by
    show versionOf? "h/1/s" = some "1"
    decide
  obtain ⟨hanswers, hspacing⟩ := answers_and_spacing (m := emptyStore) rfl hsteady
  exact ⟨hsteady, hanswers _ _ _ rfl,
    hspacing (agingRun.take 2) (callAfter 0 "1") [.call (callAfter 3 "1")] (callAfter 9 "1") []
      "1" rfl (hversion 0) (hversion 9) ⟨by decide +kernel, _, rfl⟩ ⟨by decide +kernel, _, rfl⟩
      ⟨fun _ => hversion 3, trivial⟩⟩

end PluginManager.Cache
