import StandingQuery.Connectivity
import StandingQuery.Join.PartialStore

/-! The symmetric join: every partial solution is stored.

A new partial solution is joined with the stored ones of its query that cover other
patterns, share a variable with it and are compatible. Because it is stored before
anything later arrives, whichever side of a join comes second finds the first, and
the result does not depend on the order of arrival.

Joining goes in rounds: the partial solutions of one round are stored in turn, and
what they join to makes the next round. A joined solution covers more patterns than
either side, so there are at most as many rounds as patterns. -/
namespace StandingQuery
open Std

/-- The store of a symmetric join: a part is the set of patterns that are satisfied. What is
stored for a query is listed part by part. -/
structure SolutionStore extends PartialStore PatternSet where
  byQuery : ExtTreeMap QueryId (Buckets PatternSet SolutionId) := ∅

namespace PartialSolution

/-- The binding of a single pattern. -/
def ofPattern (query : QueryId) (i : Nat) (binding : Binding) (expiration : Expiration) :
    PartialSolution PatternSet :=
  ⟨query, .single i, binding, expiration⟩

/-- Joins compatible partial solutions of one query over disjoint sets of patterns. -/
def join (p q : PartialSolution PatternSet) : PartialSolution PatternSet :=
  { query := p.query
    part := p.part ∪ q.part
    binding := p.binding.merge q.binding
    expiration := min p.expiration q.expiration }

end PartialSolution

namespace SolutionStore
open PartialSolution

/-! ### The store -/

def empty : SolutionStore := {}

/-- The partial solutions of a query by part. -/
def partsOf (s : SolutionStore) (query : QueryId) : Buckets PatternSet SolutionId :=
  s.byQuery[query]?.getD ∅

/-- The numbers of the partial solutions of a query, part by part. -/
def idsOf (s : SolutionStore) (query : QueryId) : List SolutionId :=
  (s.partsOf query).toList.flatMap fun (_, ids) => ids.toList

def sizeOf (s : SolutionStore) (query : QueryId) : Nat :=
  (s.partsOf query).toList.foldl (fun n (_, ids) => n + ids.size) 0

/-- Stores a partial solution. A new one is listed under its query and part. -/
def insert (s : SolutionStore) (p : PartialSolution PatternSet) : StoreOutcome × SolutionStore :=
  let (outcome, stored) := s.toPartialStore.insert p
  (outcome,
    { toPartialStore := stored
      byQuery :=
        match outcome with
        | .inserted id => s.byQuery.insert p.query ((s.partsOf p.query).add p.part id)
        | _ => s.byQuery })

/-- Takes out the partial solution with a number. A query with none left is listed no more. -/
def remove (s : SolutionStore) (id : SolutionId) :
    Option (PartialSolution PatternSet) × SolutionStore :=
  let (found, stored) := s.toPartialStore.remove id
  (found,
    { toPartialStore := stored
      byQuery :=
        match found with
        | none => s.byQuery
        | some p =>
          let parts := (s.partsOf p.query).discard p.part id
          if parts.isEmpty then s.byQuery.erase p.query else s.byQuery.insert p.query parts })

/-- Takes out all partial solutions of a query and lists their numbers, part by part. -/
def removeQuery (s : SolutionStore) (query : QueryId) : List SolutionId × SolutionStore :=
  (s.idsOf query, (s.idsOf query).foldl (fun s id => (s.remove id).2) s)

def clear (s : SolutionStore) : SolutionStore := { toPartialStore := s.toPartialStore.clear }

/-! ### Joining -/

/-- The stored partial solutions over one set of patterns that can be joined with `p`
and are still valid: found by the term of a shared variable, then checked in full. -/
def partnersOver (s : SolutionStore) (p : PartialSolution PatternSet) (a : Analysis) (now : Nat)
    (part : PatternSet) : List (PartialSolution PatternSet) :=
  if part.disjoint p.part && a.adjacent p.part part then
    match a.sharedVariable p.part part with
    | none => []
    | some v =>
      match p.binding[v]? with
      | none => []
      | some t =>
        (s.probe ⟨p.query, part, v, t⟩).filter fun q =>
          !q.expiration.expiredAt now && Binding.compatible q.binding p.binding
  else []

/-- The stored partial solutions that can be joined with `p` and are still valid. -/
def partners (s : SolutionStore) (p : PartialSolution PatternSet) (a : Analysis) (now : Nat) :
    List (PartialSolution PatternSet) :=
  (s.partsOf p.query).keys.flatMap (partnersOver s p a now)

/-- How far joining has got. -/
structure Progress where
  store : SolutionStore
  expirations : Expirations
  /-- Something was stored or lives longer. -/
  changed : Bool := false
  /-- The solutions of the whole query, in the order in which they were found. -/
  complete : List (PartialSolution PatternSet) := []

/-- Stores one partial solution and lists what it joins to. One that is stored already
and expires no earlier joins to nothing new. -/
def absorb (a : Analysis) (now : Nat) (s : Progress) (p : PartialSolution PatternSet) :
    Progress × List (PartialSolution PatternSet) :=
  let (outcome, store) := s.store.insert p
  match outcome.id? with
  | none => (s, [])
  | some id =>
    let s := { s with
      store
      expirations := s.expirations.track (.solution id) p.expiration
      changed := true }
    if p.part = a.full then ({ s with complete := s.complete ++ [p] }, [])
    else (s, (partners store p a now).map p.join)

/-- One round: stores all of `work` in turn and collects what it joins to. -/
def round (a : Analysis) (now : Nat) :
    Progress → List (PartialSolution PatternSet) → Progress × List (PartialSolution PatternSet)
  | s, [] => (s, [])
  | s, p :: work =>
    let (s, joined) := absorb a now s p
    let (s, more) := round a now s work
    (s, joined ++ more)

/-- Round after round, until nothing is left to join. -/
def rounds (a : Analysis) (now : Nat) :
    Nat → Progress → List (PartialSolution PatternSet) → Progress
  | 0, s, _ => s
  | _ + 1, s, [] => s
  | n + 1, s, p :: work =>
    let (s, next) := round a now s (p :: work)
    rounds a now n s next

/-- Stores `seed` and everything that can be joined from it. -/
def propagate (s : SolutionStore) (expirations : Expirations) (seed : PartialSolution PatternSet)
    (a : Analysis) (now : Nat) : Progress :=
  rounds a now (a.size + 1) { store := s, expirations } [seed]

end SolutionStore

end StandingQuery
