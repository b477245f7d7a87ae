import StandingQuery.Connectivity
import StandingQuery.Join.PartialStore

/-! The caching join: only the matches of single patterns are stored.

A new match of one pattern is extended along the query's join order: for each
further pattern, the cached matches that agree with what is bound so far are found
by one of the terms already bound. Joins are computed anew each time. -/
namespace StandingQuery
open Std

/-- The store of a caching join: a part is the index of a single pattern. What is cached for a
query is listed by number. -/
structure MatchCache extends PartialStore Nat where
  byQuery : Buckets QueryId SolutionId := ∅

namespace MatchCache

/-! ### The store -/

def empty : MatchCache := {}

/-- The numbers of the matches of a query, in order. -/
def idsOf (c : MatchCache) (query : QueryId) : List SolutionId := (c.byQuery.find query).toList

def sizeOf (c : MatchCache) (query : QueryId) : Nat := (c.byQuery.find query).size

/-- Caches a match. A new one is listed under its query. -/
def insert (c : MatchCache) (m : PartialSolution Nat) : StoreOutcome × MatchCache :=
  let (outcome, stored) := c.toPartialStore.insert m
  (outcome,
    { toPartialStore := stored
      byQuery :=
        match outcome with
        | .inserted id => c.byQuery.add m.query id
        | _ => c.byQuery })

/-- Takes out the match with a number. -/
def remove (c : MatchCache) (id : SolutionId) : Option (PartialSolution Nat) × MatchCache :=
  let (found, stored) := c.toPartialStore.remove id
  (found,
    { toPartialStore := stored
      byQuery :=
        match found with
        | none => c.byQuery
        | some m => c.byQuery.discard m.query id })

/-- Takes out all matches of a query and lists their numbers in order. -/
def removeQuery (c : MatchCache) (query : QueryId) : List SolutionId × MatchCache :=
  (c.idsOf query, (c.idsOf query).foldl (fun c id => (c.remove id).2) c)

def clear (c : MatchCache) : MatchCache := { toPartialStore := c.toPartialStore.clear }

/-! ### Joining -/

/-- The first variable of pattern `i` that is bound, with its term. -/
def probeTerm? (a : Analysis) (i : Nat) (b : Binding) : Option (Variable × Term) :=
  (a.varsOf i).findSome? fun v => b[v]?.map (v, ·)

/-- The cached matches of pattern `i` that are still valid and agree with `b`. -/
def candidates (c : MatchCache) (a : Analysis) (query : QueryId) (now : Nat) (i : Nat)
    (b : Binding) : List (PartialSolution Nat) :=
  match probeTerm? a i b with
  | none => []
  | some (v, t) =>
    (c.probe ⟨query, i, v, t⟩).filter fun m =>
      !m.expiration.expiredAt now && Binding.compatible m.binding b

/-- All ways to extend a binding by one match for each of the remaining patterns. -/
def extend (c : MatchCache) (a : Analysis) (query : QueryId) (now : Nat) :
    List Nat → Binding → Expiration → List Candidate
  | [], b, e => [⟨b, e⟩]
  | i :: rest, b, e =>
    (candidates c a query now i b).flatMap fun m =>
      extend c a query now rest (Binding.merge b m.binding) (min e m.expiration)

/-- Caches a match and lists the solutions it takes part in. There is no list when the
match was cached before and expires no earlier. -/
def addMatch (c : MatchCache) (expirations : Expirations) (m : PartialSolution Nat) (a : Analysis)
    (now : Nat) : Option (List Candidate) × MatchCache × Expirations :=
  let (outcome, c') := c.insert m
  match outcome.id? with
  | none => (none, c, expirations)
  | some id =>
    (some (extend c' a m.query now (a.joinOrder m.part) m.binding m.expiration),
      c', expirations.track (.solution id) m.expiration)

end MatchCache

end StandingQuery
