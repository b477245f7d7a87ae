import StandingQuery.Connectivity
import StandingQuery.Index.Memory

/-! Registered queries and the delivery of their solutions.

A registered query carries what its modifiers need to know of the past: the memory
of delivered bindings and two counters. `Registered.offer` takes one candidate
through the modifiers, in this order: filters on the full binding, projection,
memory, offset, limit. Whether a query still wants solutions at all is kept apart,
in the set of active queries, because subscribers may cancel at any moment. -/
namespace StandingQuery
open Std

/-- The queries that have not been cancelled, satisfied, expired or cleared. -/
abbrev Active := ExtTreeSet QueryId

structure Registered where
  id : QueryId
  pattern : GraphPattern
  modifiers : Modifiers
  analysis : Analysis
  expiration : Expiration
  registeredAt : Nat
  memory : Memory
  /-- How many solutions the offset has taken so far. -/
  skipped : Nat := 0
  delivered : Nat := 0

/-- What becomes of one candidate. -/
inductive Verdict where
  | suppressed
  /-- It goes to the subscriber; if it is the last one, the query is done. -/
  | delivered (solution : Solution) (last : Bool)
  /-- It comes when the limit has been reached already: the query is done. -/
  | exhausted
deriving DecidableEq

namespace Registered

/-- The query as it enters the registry. -/
def new (id : QueryId) (query : Query) (analysis : Analysis) (expiration : Expiration)
    (now reducedCapacity : Nat) : Registered :=
  { id, analysis, expiration
    pattern := query.pattern
    modifiers := query.modifiers
    registeredAt := now
    memory := .ofDistinctness query.modifiers.distinctness reducedCapacity }

/-- The limit admits no solution after `delivered` ones. -/
def limitReached (q : Registered) : Bool :=
  match q.modifiers.limit with
  | some limit => limit ≤ q.delivered
  | none => false

/-- The offset takes the next solution. -/
def skips (q : Registered) : Bool :=
  match q.modifiers.offset with
  | some offset => q.skipped < offset
  | none => false

/-- Takes a candidate through the modifiers. -/
def offer (q : Registered) (c : Candidate) : Verdict × Registered :=
  if !q.modifiers.filters.all (fun keep => keep c.binding) then (.suppressed, q)
  else
    let (fresh, memory) := q.memory.accept (q.modifiers.projection.apply c.binding)
    let q := { q with memory }
    if !fresh then (.suppressed, q)
    else if q.skips then (.suppressed, { q with skipped := q.skipped + 1 })
    else if q.limitReached then (.exhausted, q)
    else
      let q := { q with delivered := q.delivered + 1 }
      (.delivered ⟨q.id, q.modifiers.output c.binding, c.expiration⟩
        (q.modifiers.ask || q.limitReached), q)

end Registered

/-- What callers are told about a registered query. -/
structure QueryInfo where
  query : QueryId
  registeredAt : Nat
  expiration : Expiration
  patterns : Nat
  delivered : Nat
  active : Bool
deriving DecidableEq

def Registered.info (q : Registered) (active : Active) : QueryInfo :=
  { query := q.id
    registeredAt := q.registeredAt
    expiration := q.expiration
    patterns := q.pattern.length
    delivered := q.delivered
    active := active.contains q.id }

/-- The table of registered queries, with a bound on their number if there is one. -/
structure Registry where
  maxQueries : Option Nat := none
  queries : ExtTreeMap QueryId Registered := ∅

namespace Registry

def get? (r : Registry) (id : QueryId) : Option Registered := r.queries[id]?

def contains (r : Registry) (id : QueryId) : Bool := r.queries.contains id

/-- The ids of the registered queries in ascending order. -/
def ids (r : Registry) : List QueryId := r.queries.keys

def size (r : Registry) : Nat := r.queries.size

def isEmpty (r : Registry) : Bool := r.queries.isEmpty

/-- Why a query with this id cannot be registered now. -/
def refusal? (r : Registry) (id : QueryId) : Option Declined :=
  if r.contains id then some (.alreadyExists id)
  else if r.maxQueries.any (· ≤ r.size) then some .full
  else none

def register (r : Registry) (q : Registered) : Except Declined Registry :=
  match r.refusal? q.id with
  | some reason => .error reason
  | none => .ok { r with queries := r.queries.insert q.id q }

def unregister (r : Registry) (id : QueryId) : Except Declined (Registered × Registry) :=
  match r.get? id with
  | none => .error (.notFound id)
  | some q => .ok (q, { r with queries := r.queries.erase id })

/-- Puts back the changed record of a registered query. -/
def update (r : Registry) (q : Registered) : Registry :=
  { r with queries := r.queries.insert q.id q }

def clear (r : Registry) : Registry := { r with queries := ∅ }

end Registry

end StandingQuery
