import PluginManager.Failure

/-!
# Procedures over a store

A procedure is a sequence of single steps: reading, writing or dating a file of a store, fetching a
document, looking at the clock.  What it does next depends on the answers.  Since the steps are
data, a procedure can be run to its end, stopped in between or mixed with another one.

* `Procedure.step`: the next step, carried out on a store.
* `Procedure.run`: all steps in order.
-/

namespace PluginManager.Cache

inductive Procedure (α : Type) where
  | done (a : α)
  | fail (f : Failure)
  | read (key : String) (next : Option Bytes → Procedure α)
  | write (key : String) (bytes : Bytes) (next : Procedure α)
  | modifiedAt (key : String) (next : Option Int → Procedure α)
  | now (next : Int → Procedure α)
  | fetch (url : String) (next : Bytes → Procedure α)

/-- Files by key in a state `σ`.  A write that fails may leave traces. -/
structure Store (σ : Type) where
  read : σ → String → Except Failure (Option Bytes)
  write : σ → String → Bytes → Except Failure Unit × σ
  modifiedAt : σ → String → Except Failure (Option Int)
  now : σ → Int

abbrev Fetch := String → Except Failure Bytes

namespace Procedure

variable {α σ : Type}

/-- Goes on with an answer, or fails with its error. -/
def continueWith {β : Type} (next : β → Procedure α) : Except Failure β → Procedure α
  | .ok b => next b
  | .error f => .fail f

def step (store : Store σ) (fetched : Fetch) : Procedure α → σ → Procedure α × σ
  | done a, s => (done a, s)
  | fail f, s => (fail f, s)
  | read key next, s => (continueWith next (store.read s key), s)
  | write key bytes next, s =>
    let (answer, s') := store.write s key bytes
    (continueWith (fun () => next) answer, s')
  | modifiedAt key next, s => (continueWith next (store.modifiedAt s key), s)
  | now next, s => (next (store.now s), s)
  | fetch url next, s => (continueWith next (fetched url), s)

/-- A result, the addresses that were fetched, and the store afterwards. -/
structure Outcome (α σ : Type) where
  result : Except Failure α
  fetched : List String
  store : σ

def Outcome.addFetch (url : String) (o : Outcome α σ) : Outcome α σ :=
  { o with fetched := url :: o.fetched }

def run (store : Store σ) (fetched : Fetch) : Procedure α → σ → Outcome α σ
  | done a, s => ⟨.ok a, [], s⟩
  | fail f, s => ⟨.error f, [], s⟩
  | read key next, s =>
    match store.read s key with
    | .error f => ⟨.error f, [], s⟩
    | .ok b => run store fetched (next b) s
  | write key bytes next, s =>
    match store.write s key bytes with
    | (.error f, s') => ⟨.error f, [], s'⟩
    | (.ok (), s') => run store fetched next s'
  | modifiedAt key next, s =>
    match store.modifiedAt s key with
    | .error f => ⟨.error f, [], s⟩
    | .ok t => run store fetched (next t) s
  | now next, s => run store fetched (next (store.now s)) s
  | fetch url next, s =>
    match fetched url with
    | .error f => ⟨.error f, [url], s⟩
    | .ok body => (run store fetched (next body) s).addFetch url

end Procedure

end PluginManager.Cache
