import StandingQuery.Index.Expirations
import StandingQuery.PatternSet

/-! Stores of partial solutions.

A partial solution is a binding together with the part of its query that it
satisfies. What a part is, is left open: a set of patterns, or a single pattern. A
store holds at most one partial solution for each query, part and binding, and
remembers the latest expiration it was stored with. Besides by number, partial
solutions are found by what identifies them and by one of the terms they bind. How
they are listed by query is left open as well: each join adds a listing of its own.
Numbers are never given out twice. -/
namespace StandingQuery
open Std

/-- A binding that satisfies a part of a query. -/
structure PartialSolution (Part : Type) where
  query : QueryId
  part : Part
  binding : Binding
  expiration : Expiration
deriving DecidableEq

namespace PartialSolution

/-- What identifies a partial solution. -/
structure Key (Part : Type) where
  query : QueryId
  part : Part
  binding : Binding
deriving DecidableEq

/-- A term to look for in the partial solutions of one part. -/
structure Probe (Part : Type) where
  query : QueryId
  part : Part
  name : Variable
  term : Term
deriving DecidableEq

variable {Part : Type}

def key (p : PartialSolution Part) : Key Part := ⟨p.query, p.part, p.binding⟩

/-- The probes that find a partial solution. -/
def probes (p : PartialSolution Part) : List (Probe Part) :=
  p.binding.toList.map fun (v, t) => ⟨p.query, p.part, v, t⟩

variable [Ord Part]

instance : Ord (Key Part) :=
  ⟨compareLex (compareOn Key.query) (compareLex (compareOn Key.part) (compareOn Key.binding))⟩

instance : Ord (Probe Part) :=
  ⟨compareLex (compareOn Probe.query) (compareLex (compareOn Probe.part)
    (compareLex (compareOn Probe.name) (compareOn Probe.term)))⟩

variable [TransOrd Part]

instance : TransOrd (Key Part) := inferInstanceAs (TransCmp (compareLex _ _))
instance : TransOrd (Probe Part) := inferInstanceAs (TransCmp (compareLex _ _))

variable [LawfulEqOrd Part]

instance : LawfulEqOrd (Key Part) :=
  lawfulEqCmp_compareLex fun {a b} hq h => by
    obtain ⟨hp, hb⟩ := compareLex_eq_eq.1 h
    cases a; cases b; cases hq
    cases eq_of_compareOn_eq hp
    cases eq_of_compareOn_eq hb
    rfl

instance : LawfulEqOrd (Probe Part) :=
  lawfulEqCmp_compareLex fun {a b} hq h => by
    obtain ⟨hp, h⟩ := compareLex_eq_eq.1 h
    obtain ⟨hv, ht⟩ := compareLex_eq_eq.1 h
    cases a; cases b; cases hq
    cases eq_of_compareOn_eq hp
    cases eq_of_compareOn_eq hv
    cases eq_of_compareOn_eq ht
    rfl

end PartialSolution

/-- What storing a partial solution came to. -/
inductive StoreOutcome where
  | inserted (id : SolutionId)
  /-- It was stored already and now expires later. -/
  | refreshed (id : SolutionId)
  /-- It was stored already and expires no earlier. -/
  | unchanged
deriving DecidableEq

/-- The number of a partial solution that was inserted or refreshed. -/
def StoreOutcome.id? : StoreOutcome → Option SolutionId
  | .inserted id => some id
  | .refreshed id => some id
  | .unchanged => none

open PartialSolution in
structure PartialStore (Part : Type) [Ord Part] where
  nextId : SolutionId := 0
  solutions : ExtTreeMap SolutionId (PartialSolution Part) := ∅
  byKey : ExtTreeMap (Key Part) SolutionId := ∅
  probes : Buckets (Probe Part) SolutionId := ∅

namespace PartialStore
open PartialSolution
variable {Part : Type} [Ord Part] [TransOrd Part] [LawfulEqOrd Part]

def get? (s : PartialStore Part) (id : SolutionId) : Option (PartialSolution Part) := s.solutions[id]?

def size (s : PartialStore Part) : Nat := s.solutions.size

def isEmpty (s : PartialStore Part) : Bool := s.solutions.isEmpty

/-- Stores a partial solution, or extends the life of the one that is stored already. -/
def insert (s : PartialStore Part) (p : PartialSolution Part) : StoreOutcome × PartialStore Part :=
  match s.byKey[p.key]? with
  | some id =>
    match s.solutions[id]? with
    | some stored =>
      if stored.expiration < p.expiration then
        (.refreshed id,
          { s with solutions := s.solutions.insert id { stored with expiration := p.expiration } })
      else (.unchanged, s)
    | none => (.unchanged, s)
  | none =>
    let id := s.nextId
    (.inserted id,
      { nextId := id + 1
        solutions := s.solutions.insert id p
        byKey := s.byKey.insert p.key id
        probes := p.probes.foldl (fun b probe => b.add probe id) s.probes })

/-- Takes out the partial solution with a number. -/
def remove (s : PartialStore Part) (id : SolutionId) :
    Option (PartialSolution Part) × PartialStore Part :=
  match s.solutions[id]? with
  | none => (none, s)
  | some p =>
    (some p,
      { s with
        solutions := s.solutions.erase id
        byKey := s.byKey.erase p.key
        probes := p.probes.foldl (fun b probe => b.discard probe id) s.probes })

/-- Forgets everything except which numbers have been given out. -/
def clear (s : PartialStore Part) : PartialStore Part := { nextId := s.nextId }

/-- The partial solutions that a probe finds, in the order of their numbers. -/
def probe (s : PartialStore Part) (p : Probe Part) : List (PartialSolution Part) :=
  (s.probes.find p).toList.filterMap (s.solutions[·]?)

end PartialStore

end StandingQuery
