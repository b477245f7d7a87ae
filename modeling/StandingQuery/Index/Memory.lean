import StandingQuery.Query

/-! Memories: which bindings a query has delivered.

A query that wants distinct solutions remembers every delivered binding. One that
wants reduced solutions remembers the last few: when its memory is full it forgets
the oldest, which may then be delivered again. -/
namespace StandingQuery
open Std

inductive Memory where
  | none
  | distinct (seen : ExtTreeSet Binding)
  /-- `order` lists what is remembered, oldest first. -/
  | reduced (capacity : Nat) (seen : ExtTreeSet Binding) (order : List Binding)
deriving DecidableEq, Inhabited

namespace Memory

/-- The memory of a new query. A reduced memory holds at least one binding. -/
def ofDistinctness (d : Distinctness) (capacity : Nat) : Memory :=
  match d with
  | .none => .none
  | .distinct => .distinct ∅
  | .reduced => .reduced (max capacity 1) ∅ []

/-- Forgets the oldest bindings until there is room for one more. -/
def makeRoom (capacity : Nat) (seen : ExtTreeSet Binding) :
    List Binding → ExtTreeSet Binding × List Binding
  | [] => (seen, [])
  | oldest :: order =>
    if capacity ≤ order.length + 1 then makeRoom capacity (seen.erase oldest) order
    else (seen, oldest :: order)

/-- Whether a binding may be delivered, and the memory in which it has been. -/
def accept (m : Memory) (b : Binding) : Bool × Memory :=
  match m with
  | .none => (true, .none)
  | .distinct seen => (!seen.contains b, .distinct (seen.insert b))
  | .reduced capacity seen order =>
    if seen.contains b then (false, m)
    else
      let (seen, order) := makeRoom capacity seen order
      (true, .reduced capacity (seen.insert b) (order ++ [b]))

/-- How many bindings are remembered. -/
def size : Memory → Nat
  | .none => 0
  | .distinct seen => seen.size
  | .reduced _ seen _ => seen.size

end Memory

end StandingQuery
