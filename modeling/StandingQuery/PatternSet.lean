import StandingQuery.Order

/-! Sets of pattern indices.

A partial solution is labelled with the patterns of its query that it satisfies.
The label is a set of small numbers, held as the number whose set bits are the
members. Sets are ordered by that number, which is the order in which the partial
solutions of a query are listed. A query has at most `capacity` patterns. -/
namespace StandingQuery

structure PatternSet where
  bits : Nat
deriving DecidableEq, Inhabited

namespace PatternSet

/-- The most patterns a query can have. -/
def capacity : Nat := 64

instance : EmptyCollection PatternSet := ⟨⟨0⟩⟩

def single (i : Nat) : PatternSet := ⟨1 <<< i⟩

/-- The first `n` indices, but never more than a query can have. -/
def full (n : Nat) : PatternSet := ⟨(1 <<< min n capacity) - 1⟩

def contains (s : PatternSet) (i : Nat) : Bool := s.bits.testBit i

instance : Membership Nat PatternSet := ⟨fun s i => s.contains i = true⟩
instance (i : Nat) (s : PatternSet) : Decidable (i ∈ s) := inferInstanceAs (Decidable (_ = true))

instance : Union PatternSet := ⟨fun s t => ⟨s.bits ||| t.bits⟩⟩

def disjoint (s t : PatternSet) : Bool := s.bits &&& t.bits == 0

def isEmpty (s : PatternSet) : Bool := s.bits == 0

/-- The members in ascending order. -/
def indices (s : PatternSet) : List Nat := (List.range (s.bits.log2 + 1)).filter s.contains

def size (s : PatternSet) : Nat := s.indices.length

/-- The union of a list of sets. -/
def unions : List PatternSet → PatternSet
  | [] => ∅
  | s :: rest => s ∪ unions rest

instance : Ord PatternSet := ⟨compareOn bits⟩
instance : Std.TransOrd PatternSet := inferInstanceAs (Std.TransCmp (compareOn bits))
instance : Std.LawfulEqOrd PatternSet :=
  lawfulEqCmp_compareOn fun {a b} h => by cases a; cases b; cases h; rfl

end PatternSet

end StandingQuery
