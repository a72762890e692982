import Mathlib.Data.List.Induction
import Mathlib.Logic.Function.Basic
import PluginManager.Proofs.Cache.Provenance
import PluginManager.Proofs.Cache.Stage

/-!
# Two calls at the same time

Two calls prepare the schema over one store without a lock.  Each takes its steps in order, and the
steps of the two may come in any order.

* `Race`: a store, what is left of two calls, and which of them wrote each file last.
* `Contest.after`: what a run of turns leaves.
* `Contest.Accounted`: the invariant.  What is in the store is what its last writer left there, and
  each call knows what it has seen.  `Contest.Accounted.take`, `Contest.exists_accounted`: every
  turn keeps it, and so does every run of turns.
* `compiled_document_of_race`: **which document a call compiles**, and when it is one of the other
  version.
* `versions_are_mixed`: a run in which it is.
-/

namespace PluginManager.Cache

/-! ## Races -/

/-- A store, what is left of two calls on it, and which of them wrote each file last. -/
structure Race where
  store : Memory
  call : Side → Procedure Schema
  writer : String → Option Side

def Race.take (r : Race) (t : Turn) : Race :=
  let m := r.store.wait t.wait
  let moved := (r.call t.side).step t.store t.fetch m
  { store := moved.2
    call := Function.update r.call t.side moved.1
    writer := fun key =>
      if (r.call t.side).written? t.store m = some key then some t.side else r.writer key }

/-- A store, and two calls that prepare the schemas of two versions over it. -/
structure Contest where
  store : Memory
  maxAge : Side → Nat
  url : Side → String
  version : Side → String

namespace Contest

def start (c : Contest) : Race :=
  ⟨c.store, fun s => prepare (c.maxAge s) (c.url s), fun _ => none⟩

def after (c : Contest) (turns : List Turn) : Race := turns.foldl Race.take c.start

theorem after_concat (c : Contest) (turns : List Turn) (t : Turn) :
    c.after (turns ++ [t]) = (c.after turns).take t := by
  rw [after, List.foldl_append]
  rfl

/-- The addresses are of two versions without blanks around them, and the document in the store
belongs to the version in its marker. -/
structure Fair (belongs : String → Bytes → Prop) (c : Contest) : Prop where
  versionOf : ∀ s, versionOf? (c.url s) = some (c.version s)
  trimmed : ∀ s, Text.trim (c.version s) = c.version s
  distinct : c.version .left ≠ c.version .right
  paired : ∀ marker document version, c.store.find? versionKey = some marker →
    c.store.find? schemaKey = some document → isMarkedAs version marker.bytes = true →
    belongs version document.bytes

/-- No write is lost, and what is fetched belongs to the version of its address. -/
structure FairTurn (belongs : String → Bytes → Prop) (c : Contest) (t : Turn) : Prop where
  kept : ∀ key, Fault.lose key ∉ t.faults
  fetched : ∀ s body, t.fetch (c.url s) = .ok body → belongs (c.version s) body

/-- When the call took its first step, the other had not written its marker. -/
def Overlaps (c : Contest) (s : Side) (turns : List Turn) : Prop :=
  ∃ before t after, turns = before ++ t :: after ∧ t.side = s ∧ (∀ u ∈ before, u.side ≠ s) ∧
    (c.after before).writer versionKey ≠ some s.other

/-- The schema is compiled from the document that is in the store after the turns.  It belongs to
the version of the call, unless the other call wrote it; then the two overlap. -/
structure Compiles (belongs : String → Bytes → Prop) (c : Contest) (s : Side) (turns : List Turn)
    (schema : Schema) (document : StoredFile) : Prop where
  stored : (c.after turns).store.find? schemaKey = some document
  compiled : Schema.compile document.bytes = .ok schema
  own : (c.after turns).writer schemaKey ≠ some s.other → belongs (c.version s) document.bytes
  foreign : (c.after turns).writer schemaKey = some s.other →
    belongs (c.version s.other) document.bytes ∧ c.Overlaps s turns

variable {belongs : String → Bytes → Prop} {c : Contest} {s : Side} {t : Turn} {turns : List Turn}
  {r : Race} {schema : Schema} {key : String}

theorem Fair.ne (h : c.Fair belongs) (s : Side) : c.version s.other ≠ c.version s := by
  cases s with
  | left => exact h.distinct.symm
  | right => exact h.distinct

theorem Overlaps.concat (h : c.Overlaps s turns) (t : Turn) : c.Overlaps s (turns ++ [t]) := by
  obtain ⟨before, first, after, rfl, hside, hbefore, hwriter⟩ := h
  exact ⟨before, first, after ++ [t], by simp, hside, hbefore, hwriter⟩

/-! ## The invariant -/

/-- The marker the run began with is of the version of the call. -/
def StartsMarked (c : Contest) (s : Side) : Prop :=
  ∃ marker, c.store.find? versionKey = some marker ∧
    isMarkedAs (c.version s) marker.bytes = true

/-- The call has written nothing. -/
def Untouched (r : Race) (s : Side) : Prop := ∀ key, r.writer key ≠ some s

/-- Its own document is in the store, or that of the other call it overlaps with. -/
def HasStored (c : Contest) (r : Race) (turns : List Turn) (s : Side) : Prop :=
  r.writer schemaKey = some s ∨ r.writer schemaKey = some s.other ∧ c.Overlaps s turns

/-- The calls overlap, or the other has come to the end of its writing. -/
def InOrder (c : Contest) (stage : Side → Stage) (turns : List Turn) (s : Side) : Prop :=
  c.Overlaps s turns ∨ (stage s.other).IsPastWriting

/-- What a call knows at its stage. -/
def Standing (belongs : String → Bytes → Prop) (c : Contest) (r : Race) (stage : Side → Stage)
    (turns : List Turn) (s : Side) : Stage → Prop
  | .asking => Untouched r s ∧ ∀ u ∈ turns, u.side ≠ s
  | .dating | .aging _ => Untouched r s ∧ c.StartsMarked s ∧ c.Overlaps s turns
  | .fetching => Untouched r s ∧ c.InOrder stage turns s
  | .storing body => Untouched r s ∧ c.InOrder stage turns s ∧ belongs (c.version s) body
  | .marking => c.HasStored r turns s ∧ c.InOrder stage turns s
  | .reading =>
    (Untouched r s ∧ c.StartsMarked s ∧ c.Overlaps s turns) ∨
      (c.HasStored r turns s ∧ c.InOrder stage turns s)
  | .ended (.ok schema) => ∃ before t after document, turns = before ++ t :: after ∧ t.side = s ∧
      c.Compiles belongs s before schema document
  | .ended (.error _) => True

/-- A file that no call has written is as it was; one that a call has written is as that call left
it. -/
structure Accounted (belongs : String → Bytes → Prop) (c : Contest) (turns : List Turn)
    (stage : Side → Stage) (r : Race) : Prop where
  call : ∀ s, r.call s = (stage s).procedure (c.maxAge s) (c.url s) (c.version s)
  document : r.writer schemaKey = none →
    (r.store.find? schemaKey).map StoredFile.bytes =
      (c.store.find? schemaKey).map StoredFile.bytes
  written : ∀ s, r.writer schemaKey = some s → ∀ document,
    r.store.find? schemaKey = some document → belongs (c.version s) document.bytes
  marker : r.writer versionKey = none →
    (r.store.find? versionKey).map StoredFile.bytes =
      (c.store.find? versionKey).map StoredFile.bytes
  marked : ∀ s, r.writer versionKey = some s →
    (r.store.find? versionKey).map StoredFile.bytes = some (Text.encode (c.version s))
  past : ∀ s, r.writer versionKey = some s → (stage s).IsPastWriting
  standing : ∀ s, Standing belongs c r stage turns s (stage s)

theorem accounted_start (hc : c.Fair belongs) :
    c.Accounted belongs [] (fun _ => .asking) c.start := by
  refine ⟨fun s => ?_, fun _ => rfl, fun s h => ?_, fun _ => rfl, fun s h => ?_, fun s h => ?_,
    fun s => ⟨fun key h => ?_, by simp⟩⟩
  · show prepare (c.maxAge s) (c.url s) = _
    rw [prepare, hc.versionOf s]
    rfl
  all_goals exact absurd h (by simp [start])

/-! ## One step of a call -/

variable {stage stage' : Side → Stage} {r' : Race}

theorem InOrder.concat (h : c.InOrder stage turns s)
    (hpast : (stage s.other).IsPastWriting → (stage' s.other).IsPastWriting) :
    c.InOrder stage' (turns ++ [t]) s := h.imp (·.concat t) hpast

theorem HasStored.concat (h : c.HasStored r turns s)
    (hw : r'.writer schemaKey = r.writer schemaKey) : c.HasStored r' (turns ++ [t]) s := by
  rw [HasStored, hw]
  exact h.imp_right fun h => ⟨h.1, h.2.concat t⟩

/-- What a call knows outlasts a turn that does not take its stage from it. -/
theorem Standing.concat {current : Stage} (h : Standing belongs c r stage turns s current)
    (hasking : current = .asking → t.side ≠ s) (huntouched : Untouched r s → Untouched r' s)
    (hstored : c.HasStored r turns s → c.InOrder stage turns s →
      c.HasStored r' (turns ++ [t]) s)
    (hpast : (stage s.other).IsPastWriting → (stage' s.other).IsPastWriting) :
    Standing belongs c r' stage' (turns ++ [t]) s current := by
  cases current with
  | asking =>
    refine ⟨huntouched h.1, fun u hu => ?_⟩
    rcases List.mem_append.mp hu with hu | hu
    · exact h.2 u hu
    · rw [List.mem_singleton.mp hu]
      exact hasking rfl
  | dating | aging => exact ⟨huntouched h.1, h.2.1, h.2.2.concat t⟩
  | fetching => exact ⟨huntouched h.1, h.2.concat hpast⟩
  | storing body => exact ⟨huntouched h.1, h.2.1.concat hpast, h.2.2⟩
  | marking => exact ⟨hstored h.1 h.2, h.2.concat hpast⟩
  | reading =>
    exact h.imp (fun h => ⟨huntouched h.1, h.2.1, h.2.2.concat t⟩)
      fun h => ⟨hstored h.1 h.2, h.2.concat hpast⟩
  | ended result =>
    cases result with
    | error f => trivial
    | ok schema =>
      obtain ⟨before, u, after, document, rfl, hside, hcompiles⟩ := h
      exact ⟨before, u, after ++ [t], document, by simp, hside, hcompiles⟩

section Step

variable (hc : c.Fair belongs) (ht : c.FairTurn belongs t)
  (h : c.Accounted belongs turns stage (c.after turns))
include hc h

/-- A call that finds a marker of its version finds the one the run began with. -/
theorem Accounted.startsMarked {marker : StoredFile} (hu : Untouched (c.after turns) s)
    (hmarker : (c.after turns).store.find? versionKey = some marker)
    (hmarked : isMarkedAs (c.version s) marker.bytes = true) :
    c.StartsMarked s ∧ (c.after turns).writer versionKey ≠ some s.other := by
  cases hw : (c.after turns).writer versionKey with
  | none =>
    have hbytes := h.marker hw
    rw [hmarker] at hbytes
    obtain ⟨first, hfirst, heq⟩ := Option.map_eq_some_iff.mp hbytes.symm
    exact ⟨⟨first, hfirst, by rw [heq]; exact hmarked⟩, by simp⟩
  | some s' =>
    have hbytes := h.marked s' hw
    obtain rfl : s' = s.other := Side.eq_other fun hs => hu versionKey (hs ▸ hw)
    rw [hmarker, Option.map_some] at hbytes
    rw [Option.some.inj hbytes, isMarkedAs_encode (hc.trimmed _), decide_eq_true_eq] at hmarked
    exact absurd hmarked (hc.ne s)

/-- The document that a call reads back at its last step. -/
theorem Accounted.compiles {document : StoredFile}
    (hstanding : Standing belongs c (c.after turns) stage turns s .reading)
    (hstored : (c.after turns).store.find? schemaKey = some document)
    (hcompile : Schema.compile document.bytes = .ok schema) :
    c.Compiles belongs s turns schema document := by
  refine ⟨hstored, hcompile, fun hne => ?_, fun hw => ⟨h.written _ hw document hstored, ?_⟩⟩
  · rcases hstanding with ⟨hu, ⟨marker, hmarker, hmarked⟩, -⟩ | ⟨hown | ⟨hw, -⟩, -⟩
    · cases hw : (c.after turns).writer schemaKey with
      | none =>
        have hbytes := h.document hw
        rw [hstored] at hbytes
        obtain ⟨first, hfirst, heq⟩ := Option.map_eq_some_iff.mp hbytes.symm
        rw [← heq]
        exact hc.paired marker first _ hmarker hfirst hmarked
      | some s' =>
        obtain rfl : s' = s.other := Side.eq_other fun hs => hu schemaKey (hs ▸ hw)
        exact absurd hw hne
    · exact h.written s hown document hstored
    · exact absurd hw hne
  · rcases hstanding with ⟨-, -, hover⟩ | ⟨hown | ⟨-, hover⟩, -⟩
    · exact hover
    · rw [hown] at hw
      exact absurd (Option.some.inj hw).symm s.other_ne
    · exact hover

include ht in
/-- What a call knows after a step of its own that writes nothing. -/
theorem Accounted.standing_of_move {next : Stage} {m : Memory}
    (hmove : Move (c.maxAge t.side) (c.url t.side) (c.version t.side) t.fetch
      ((c.after turns).store.wait t.wait) (stage t.side) next m none)
    (hw : r'.writer = (c.after turns).writer)
    (hpast : (stage t.side.other).IsPastWriting → (stage' t.side.other).IsPastWriting) :
    Standing belongs c r' stage' (turns ++ [t]) t.side next := by
  have hstanding := h.standing t.side
  have huntouched : Untouched (c.after turns) t.side → Untouched r' t.side := fun hu key => by
    rw [hw]
    exact hu key
  generalize hstage : stage t.side = current at hmove hstanding
  cases hmove with
  | fails f _ => trivial
  | unmarked _ =>
    refine ⟨huntouched hstanding.1, ?_⟩
    by_cases hother : (c.after turns).writer versionKey = some t.side.other
    · exact .inr (hpast (h.past _ hother))
    · exact .inl ⟨turns, t, [], rfl, rfl, hstanding.2, hother⟩
  | marked hmarker hmarked =>
    obtain ⟨hstarts, hother⟩ := h.startsMarked hc hstanding.1 hmarker hmarked
    exact ⟨huntouched hstanding.1, hstarts, turns, t, [], rfl, rfl, hstanding.2, hother⟩
  | missing _ | old _ => exact ⟨huntouched hstanding.1, .inl (hstanding.2.2.concat t)⟩
  | dated _ => exact ⟨huntouched hstanding.1, hstanding.2.1, hstanding.2.2.concat t⟩
  | young _ => exact .inl ⟨huntouched hstanding.1, hstanding.2.1, hstanding.2.2.concat t⟩
  | fetches hfetch =>
    exact ⟨huntouched hstanding.1, hstanding.2.concat hpast, ht.fetched t.side _ hfetch⟩
  | compiles hstored hcompile =>
    exact ⟨turns, t, [], _, rfl, rfl, h.compiles hc hstanding hstored hcompile⟩
  | rests =>
    exact hstanding.concat (by simp) huntouched
      (fun hstored _ => hstored.concat (congrFun hw schemaKey)) hpast

end Step

/-! ## One turn -/

/-- The race after a turn in which a call came to the stage `next`. -/
structure Taken (c : Contest) (r : Race) (stage : Side → Stage) (t : Turn) (next : Stage)
    (m : Memory) (written : Option String) (r' : Race) : Prop where
  move : Move (c.maxAge t.side) (c.url t.side) (c.version t.side) t.fetch (r.store.wait t.wait)
    (stage t.side) next m written
  store : r'.store = m
  writer : ∀ key, r'.writer key = if written = some key then some t.side else r.writer key
  call : ∀ s, r'.call s =
    (Function.update stage t.side next s).procedure (c.maxAge s) (c.url s) (c.version s)

theorem Accounted.exists_taken (h : c.Accounted belongs turns stage r) (ht : c.FairTurn belongs t) :
    ∃ next m written, c.Taken r stage t next m written (r.take t) := by
  obtain ⟨next, m, hstep, hmove⟩ := exists_move t (r.store.wait t.wait) (c.maxAge t.side)
    (c.url t.side) (c.version t.side) (stage t.side) ht.kept
  refine ⟨next, m, _, hmove, ?_, fun key => ?_, fun s => ?_⟩
  · rw [Race.take, h.call t.side, hstep]
  · rw [Race.take, h.call t.side]
  · rw [Race.take, h.call t.side, hstep]
    by_cases hside : s = t.side
    · subst hside
      simp only [Function.update_self]
    · simp only [Function.update_of_ne hside, h.call s]

section Taken

variable {next : Stage} {m : Memory} {written : Option String} {body : Bytes}
  {modified : Int}
  (h : c.Accounted belongs turns stage (c.after turns))

theorem Taken.past (htaken : c.Taken r stage t next m written r') (s : Side)
    (hs : (stage s).IsPastWriting) : (Function.update stage t.side next s).IsPastWriting := by
  by_cases hside : s = t.side
  · subst hside
    rw [Function.update_self]
    exact htaken.move.isPastWriting hs
  · rwa [Function.update_of_ne hside]

include h

/-- A turn of the other call takes nothing from what a call knows. -/
theorem Accounted.standing_other (htaken : c.Taken (c.after turns) stage t next m written r')
    (hside : s ≠ t.side)
    (hstored : c.HasStored (c.after turns) turns s → c.InOrder stage turns s →
      c.HasStored r' (turns ++ [t]) s) :
    Standing belongs c r' (Function.update stage t.side next) (turns ++ [t]) s
      (Function.update stage t.side next s) := by
  rw [Function.update_of_ne hside]
  refine (h.standing s).concat (fun _ => hside.symm) (fun hu key hkey => ?_) hstored
    (htaken.past _)
  rw [htaken.writer] at hkey
  split at hkey
  · exact hside (Option.some.inj hkey).symm
  · exact hu key hkey

/-- A turn that writes nothing. -/
theorem Accounted.idle (hc : c.Fair belongs) (ht : c.FairTurn belongs t)
    (htaken : c.Taken (c.after turns) stage t next m none r') :
    c.Accounted belongs (turns ++ [t]) (Function.update stage t.side next) r' := by
  have hw : r'.writer = (c.after turns).writer := funext fun key => by simp [htaken.writer]
  have hm : ∀ key, r'.store.find? key = (c.after turns).store.find? key := by
    intro key
    rw [htaken.store, htaken.move.store_eq]
    rfl
  refine ⟨htaken.call, ?_, ?_, ?_, ?_, ?_, fun s => ?_⟩
  · rw [hw, hm]
    exact h.document
  · rw [hw, hm]
    exact h.written
  · rw [hw, hm]
    exact h.marker
  · rw [hw, hm]
    exact h.marked
  · rw [hw]
    exact fun s hs => htaken.past s (h.past s hs)
  · by_cases hside : s = t.side
    · subst hside
      rw [Function.update_self]
      exact h.standing_of_move hc ht htaken.move hw (htaken.past _)
    · exact h.standing_other htaken hside fun hstored _ =>
        hstored.concat (congrFun hw schemaKey)

/-- A turn that writes the document of a call. -/
theorem Accounted.stores (hstage : stage t.side = .storing body)
    (htaken : c.Taken (c.after turns) stage t .marking
      (((c.after turns).store.wait t.wait).put schemaKey ⟨body, modified⟩) (some schemaKey) r') :
    c.Accounted belongs (turns ++ [t]) (Function.update stage t.side .marking) r' := by
  have hstanding := h.standing t.side
  rw [hstage] at hstanding
  have hschema : r'.writer schemaKey = some t.side := by rw [htaken.writer, if_pos rfl]
  have hversion : r'.writer versionKey = (c.after turns).writer versionKey := by
    rw [htaken.writer, if_neg (by decide)]
  have hdocument : r'.store.find? schemaKey = some ⟨body, modified⟩ := by
    rw [htaken.store, Memory.find?_put_self]
  have hmarker : r'.store.find? versionKey = (c.after turns).store.find? versionKey := by
    rw [htaken.store, Memory.find?_put_of_ne _ _ (by decide)]
    rfl
  refine ⟨htaken.call, fun hnone => ?_, fun s hs document hd => ?_, ?_, ?_, ?_, fun s => ?_⟩
  · exact absurd (hschema.symm.trans hnone) (by simp)
  · obtain rfl : t.side = s := Option.some.inj (hschema.symm.trans hs)
    obtain rfl := Option.some.inj (hdocument.symm.trans hd)
    exact hstanding.2.2
  · rw [hversion, hmarker]
    exact h.marker
  · rw [hversion, hmarker]
    exact h.marked
  · rw [hversion]
    exact fun s hs => htaken.past s (h.past s hs)
  · by_cases hside : s = t.side
    · subst hside
      rw [Function.update_self]
      exact ⟨.inl hschema, hstanding.2.1.concat (htaken.past _)⟩
    · obtain hother : t.side = s.other := Side.eq_other (Ne.symm hside)
      refine h.standing_other htaken hside fun _ horder => .inr ⟨by rw [hschema, hother], ?_⟩
      -- The other call has just written, so it had not come to the end of its writing.
      refine (horder.resolve_right fun hend => ?_).concat t
      rw [← hother, hstage] at hend
      exact hend

/-- A turn that writes the marker of a call. -/
theorem Accounted.marks (hstage : stage t.side = .marking)
    (htaken : c.Taken (c.after turns) stage t .reading
      (((c.after turns).store.wait t.wait).put versionKey
        ⟨Text.encode (c.version t.side), modified⟩) (some versionKey) r') :
    c.Accounted belongs (turns ++ [t]) (Function.update stage t.side .reading) r' := by
  have hstanding := h.standing t.side
  rw [hstage] at hstanding
  have hschema : r'.writer schemaKey = (c.after turns).writer schemaKey := by
    rw [htaken.writer, if_neg (by decide)]
  have hversion : r'.writer versionKey = some t.side := by rw [htaken.writer, if_pos rfl]
  have hdocument : r'.store.find? schemaKey = (c.after turns).store.find? schemaKey := by
    rw [htaken.store, Memory.find?_put_of_ne _ _ (by decide)]
    rfl
  have hmarker : r'.store.find? versionKey =
      some ⟨Text.encode (c.version t.side), modified⟩ := by
    rw [htaken.store, Memory.find?_put_self]
  refine ⟨htaken.call, ?_, ?_, fun hnone => ?_, fun s hs => ?_, fun s hs => ?_, fun s => ?_⟩
  · rw [hschema, hdocument]
    exact h.document
  · rw [hschema, hdocument]
    exact h.written
  · exact absurd (hversion.symm.trans hnone) (by simp)
  · obtain rfl : t.side = s := Option.some.inj (hversion.symm.trans hs)
    rw [hmarker]
    rfl
  · obtain rfl : t.side = s := Option.some.inj (hversion.symm.trans hs)
    rw [Function.update_self]
    trivial
  · by_cases hside : s = t.side
    · subst hside
      rw [Function.update_self]
      exact .inr ⟨hstanding.1.concat hschema, hstanding.2.concat (htaken.past _)⟩
    · exact h.standing_other htaken hside fun hstored _ => hstored.concat hschema

/-- **A turn keeps the invariant.** -/
theorem Accounted.take (hc : c.Fair belongs) (ht : c.FairTurn belongs t) :
    ∃ stage', c.Accounted belongs (turns ++ [t]) stage' (c.after (turns ++ [t])) := by
  obtain ⟨next, m, written, htaken⟩ := h.exists_taken ht
  rw [← after_concat] at htaken
  have hmove := htaken.move
  refine ⟨Function.update stage t.side next, ?_⟩
  cases written with
  | none => exact h.idle hc ht htaken
  | some key =>
    generalize hstage : stage t.side = current at hmove
    cases hmove with
    | stores => exact h.stores hstage htaken
    | marks => exact h.marks hstage htaken

end Taken

/-- **Any run of turns keeps the invariant.** -/
theorem exists_accounted (hc : c.Fair belongs) (hturns : ∀ t ∈ turns, c.FairTurn belongs t) :
    ∃ stage, c.Accounted belongs turns stage (c.after turns) := by
  induction turns using List.reverseRecOn with
  | nil => exact ⟨_, accounted_start hc⟩
  | append_singleton turns t ih =>
    obtain ⟨stage, h⟩ := ih fun u hu => hturns u (List.mem_append_left _ hu)
    exact h.take hc (hturns t (by simp))

end Contest

/-! ## What is compiled -/

/-- **The schema of a call that succeeds** is compiled from the document that is in the store at its
last step.  If the other call was not the last to write that file, the document belongs to the
version of this one.  If it was, the document belongs to the version of the other call, and this
call had taken its first step before the other wrote its marker. -/
theorem compiled_document_of_race {belongs : String → Bytes → Prop} {c : Contest}
    {turns : List Turn} {s : Side} {schema : Schema} (hc : c.Fair belongs)
    (hturns : ∀ t ∈ turns, c.FairTurn belongs t) (h : (c.after turns).call s = .done schema) :
    ∃ before t after document, turns = before ++ t :: after ∧ t.side = s ∧
      c.Compiles belongs s before schema document := by
  obtain ⟨stage, haccounted⟩ := Contest.exists_accounted hc hturns
  have hstanding := haccounted.standing s
  rw [haccounted.call s] at h
  rw [Stage.eq_of_procedure_eq_done h] at hstanding
  exact hstanding

/-! ## Mixed versions -/

def Side.twoVersions : Side → String
  | left => "1"
  | right => "2"

/-- Calls of the two versions over a store. -/
def twoCalls (m : Memory) : Contest :=
  ⟨m, fun _ => 10, fun s => "h/" ++ s.twoVersions ++ "/s", Side.twoVersions⟩

/-- The documents of the two versions are served, and nothing fails. -/
def turnOf (s : Side) : Turn :=
  ⟨s, 0, [], fun url => .ok (twoBodies (if url = "h/1/s" then "1" else "2"))⟩

def IsTwoBody (version : String) (bytes : Bytes) : Prop := bytes = twoBodies version

theorem fairTurn_turnOf (m : Memory) (s : Side) : (twoCalls m).FairTurn IsTwoBody (turnOf s) := by
  refine ⟨fun key => by simp [turnOf], fun s' body hbody => ?_⟩
  have hfetch : (turnOf s).fetch ((twoCalls m).url s') = .ok (twoBodies s'.twoVersions) := by
    cases s' <;> rfl
  exact (Except.ok.inj (hfetch.symm.trans hbody)).symm

theorem fair_twoCalls {m : Memory}
    (hm : ∀ marker document version, m.find? versionKey = some marker →
      m.find? schemaKey = some document → isMarkedAs version marker.bytes = true →
      IsTwoBody version document.bytes) : (twoCalls m).Fair IsTwoBody := by
  have hversion : ∀ s : Side, versionOf? ("h/" ++ s.twoVersions ++ "/s") = some s.twoVersions := by
    intro s
    cases s <;> decide
  have htrim : ∀ s : Side, Text.trim s.twoVersions = s.twoVersions := by
    intro s
    cases s <;> decide
  exact ⟨hversion, htrim, show "1" ≠ "2" by decide, hm⟩

/-- The schema that a call has come to. -/
def Procedure.schemaText? : Procedure Schema → Option String
  | done schema => some schema.document.render
  | _ => none

theorem Procedure.exists_of_schemaText? {p : Procedure Schema} {text : String}
    (h : p.schemaText? = some text) :
    ∃ schema, p = .done schema ∧ schema.document.render = text := by
  cases p with
  | done schema => exact ⟨schema, rfl, Option.some.inj h⟩
  | fail | read | write | modifiedAt | now | fetch => exact absurd h (by simp [schemaText?])

/-- Both fetch, and the second writes its document and its marker between the two writes of the
first. -/
def crossing : List Turn :=
  ([.left, .left, .left, .right, .right, .right, .right, .right, .left, .left] : List Side).map
    turnOf

/-- **Versions are mixed**: the call of version 1 compiles the document of version 2. -/
theorem versions_are_mixed :
    (twoCalls emptyStore).Fair IsTwoBody ∧
      (∀ t ∈ crossing, (twoCalls emptyStore).FairTurn IsTwoBody t) ∧
      ∃ schema, ((twoCalls emptyStore).after crossing).call .left = .done schema ∧
        ¬ ∃ bytes, IsTwoBody ((twoCalls emptyStore).version .left) bytes ∧
          Schema.compile bytes = .ok schema := by
  have hcompiled : (((twoCalls emptyStore).after crossing).call .left).schemaText? =
      some "false" := by
    decide +kernel
  have hown : compiledText ((Schema.compile (twoBodies "1")).mapError .schemaDocument) =
      some "true" := by
    decide +kernel
  obtain ⟨schema, hdone, htext⟩ := Procedure.exists_of_schemaText? hcompiled
  refine ⟨fair_twoCalls fun _ _ _ hmarker => absurd hmarker (by simp [emptyStore, Memory.find?]),
    fun t ht => ?_, schema, hdone, ?_⟩
  · obtain ⟨s, -, rfl⟩ := List.mem_map.mp ht
    exact fairTurn_turnOf emptyStore s
  · rintro ⟨bytes, rfl, hcompile⟩
    rw [show (twoCalls emptyStore).version .left = "1" from rfl] at hcompile
    rw [hcompile] at hown
    have hrender : schema.document.render = "true" := by
      simpa [compiledText, Except.mapError, Except.map, Except.toOption] using hown
    rw [htext] at hrender
    exact absurd hrender (by decide)

/-- The record of version 1. -/
def recordOfOne : Memory :=
  ⟨[(versionKey, ⟨Text.encode "1", 0⟩), (schemaKey, ⟨twoBodies "1", 0⟩)], 0⟩

/-- The call of version 1 finds its record fresh while the other is between its two writes. -/
def overtaken : List Turn :=
  ([.left, .right, .right, .left, .left, .right, .left, .right, .right] : List Side).map turnOf

theorem compiled_document_of_overtaken :
    (twoCalls recordOfOne).Fair IsTwoBody ∧
      (∀ t ∈ overtaken, (twoCalls recordOfOne).FairTurn IsTwoBody t) ∧
      ∃ schema, ((twoCalls recordOfOne).after overtaken).call .left = .done schema ∧
        ∃ before t after document, overtaken = before ++ t :: after ∧ t.side = .left ∧
          (twoCalls recordOfOne).Compiles IsTwoBody .left before schema document := by
  have hfair : (twoCalls recordOfOne).Fair IsTwoBody := by
    refine fair_twoCalls fun marker document version hmarker hdocument hmarked => ?_
    obtain rfl := Option.some.inj
      ((show recordOfOne.find? versionKey = some ⟨Text.encode "1", 0⟩ by decide).symm.trans hmarker)
    obtain rfl := Option.some.inj
      ((show recordOfOne.find? schemaKey = some ⟨twoBodies "1", 0⟩ by decide).symm.trans hdocument)
    rw [isMarkedAs_encode (by decide), decide_eq_true_eq] at hmarked
    rw [← hmarked]
    rfl
  have hturns : ∀ t ∈ overtaken, (twoCalls recordOfOne).FairTurn IsTwoBody t := by
    intro t ht
    obtain ⟨s, -, rfl⟩ := List.mem_map.mp ht
    exact fairTurn_turnOf recordOfOne s
  obtain ⟨schema, hdone, -⟩ := Procedure.exists_of_schemaText?
    (show (((twoCalls recordOfOne).after overtaken).call .left).schemaText? = some "false" by
      decide +kernel)
  exact ⟨hfair, hturns, schema, hdone, compiled_document_of_race hfair hturns hdone⟩

end PluginManager.Cache
