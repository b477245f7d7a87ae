import StandingQuery.QueryIndex

/-! Histories: a query index under a sequence of operations.

An operation comes with the instant at which it is performed, and is answered with a
result and the solutions it has delivered. Subscribers in a history are inert, except
that one may be told to lose interest: it deactivates its own query with the `n`-th
solution it receives. -/
namespace StandingQuery
open Std

namespace QueryIndex

inductive Operation where
  | register (id : QueryId) (query : Query) (ttl : Nat) (quota : Option Nat := none)
  | deactivate (id : QueryId)
  | unregister (id : QueryId)
  | renew (id : QueryId) (ttl : Nat)
  | add (t : Tuple) (ttl : Nat)
  | removeExpired
  | clear

/-- What an operation answers. -/
inductive Result where
  | done
  | refused (e : Error)
  | flag (b : Bool)
  | report (r : EvictionReport)
deriving DecidableEq

/-- An index and how many more solutions each subscriber with a quota wants. -/
structure Watched where
  index : QueryIndex
  quotas : ExtTreeMap QueryId Nat := ∅
  /-- The queries that have ever been registered. -/
  known : ExtTreeSet QueryId := ∅

namespace Watched

def new (c : Config) : Watched := { index := .new c }

/-- Keeps what is delivered and deactivates a query that has received its quota. -/
def receive : Subscriber (ExtTreeMap QueryId Nat × List Solution) :=
  fun active (quotas, log) solution =>
    let log := log ++ [solution]
    match quotas[solution.query]? with
    | some (left + 1) =>
      { active := if left = 0 then active.erase solution.query else active
        state := (quotas.insert solution.query left, log) }
    | _ => { active, state := (quotas, log) }

/-- Registers a query if it is valid and the index admits it, and activates it. -/
def register (w : Watched) (id : QueryId) (query : Query) (ttl : Nat) (quota : Option Nat)
    (now : Nat) : Except Error Watched := do
  let analysis ← query.validate w.index.arity
  match w.index.register ⟨id, query, analysis, ttl⟩ now with
  | .error reason => .error (.registry reason)
  | .ok index =>
    .ok {
      index := index.activate id
      quotas := w.quotas.alter id fun _ => quota
      known := w.known.insert id }

/-- Performs one operation. -/
def perform (w : Watched) (now : Nat) : Operation → Result × List Solution × Watched
  | .register id query ttl quota =>
    match w.register id query ttl quota now with
    | .error e => (.refused e, [], w)
    | .ok w => (.done, [], w)
  | .deactivate id =>
    if w.known.contains id then (.flag true, [], { w with index := w.index.deactivate id })
    else (.done, [], w)
  | .unregister id =>
    let (found, index) := w.index.unregister id
    (.flag found, [], { w with index })
  | .renew id ttl =>
    let (found, index) := w.index.renew id ttl now
    (.flag found, [], { w with index })
  | .add t ttl =>
    let a := w.index.add receive t ttl now (w.quotas, [])
    (.flag a.changed, a.state.2, { w with index := a.index, quotas := a.state.1 })
  | .removeExpired =>
    let (report, index) := w.index.removeExpired now
    (.report report, [], { w with index })
  | .clear => (.done, [], { w with index := w.index.clear })

/-- Performs the operations in turn and lists their answers. -/
def run (w : Watched) : List (Nat × Operation) → List (Result × List Solution) × Watched
  | [] => ([], w)
  | (now, op) :: rest =>
    let (result, log, w) := w.perform now op
    let (answers, w) := run w rest
    ((result, log) :: answers, w)

end Watched

end QueryIndex

end StandingQuery
