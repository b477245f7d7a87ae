import StandingQuery.Error
import StandingQuery.Lifetime

/-! Queries and what they deliver.

A query is a graph pattern with modifiers. The pattern says which bindings are
solutions; the modifiers say which solutions are delivered and in which shape.
Filters and templates are hooks: any predicate on bindings is a filter, and
anything that makes tuples from a binding is a template. The query language
writes filters as comparisons of two slots and templates as lists of patterns. -/
namespace StandingQuery

/-! ### Hooks -/

/-- Decides on the full binding of a solution whether it is kept. -/
abbrev Filter := Binding → Bool

/-- Makes tuples from the full binding of a solution. -/
abbrev Template := Binding → List Tuple

/-- How the two sides of a comparison have to relate. -/
inductive Relation where
  | equal
  | notEqual
deriving DecidableEq

namespace Relation

instance : ToString Relation where
  toString
    | .equal => "="
    | .notEqual => "!="

def holds : Relation → Term → Term → Bool
  | .equal, a, b => a == b
  | .notEqual, a, b => a != b

end Relation

/-- A filter that compares two slots. -/
structure Comparison where
  left : Slot
  relation : Relation
  right : Slot
deriving DecidableEq

namespace Comparison

/-- A comparison with an unbound variable does not hold, whichever relation it asks for. -/
def holds (c : Comparison) : Filter := fun b =>
  match c.left.resolve b, c.right.resolve b with
  | some l, some r => c.relation.holds l r
  | _, _ => false

instance : ToString Comparison :=
  ⟨fun c => toString c.left ++ " " ++ toString c.relation ++ " " ++ toString c.right⟩

end Comparison

/-- The template made of patterns: those that a binding leaves open are left out. -/
def Template.ofPatterns (patterns : List TuplePattern) : Template := fun b =>
  patterns.filterMap (TuplePattern.instantiate · b)

/-! ### Modifiers -/

/-- Which variables of a solution are delivered. -/
inductive Projection where
  | all
  | only (vars : List Variable)
deriving DecidableEq

def Projection.apply : Projection → Binding → Binding
  | .all, b => b
  | .only vars, b => b.project vars

/-- What happens to a solution that was delivered before. -/
inductive Distinctness where
  /-- It is delivered again. -/
  | none
  /-- It never is. -/
  | distinct
  /-- It is, once enough other solutions have been delivered in between. -/
  | reduced
deriving DecidableEq

structure Modifiers where
  projection : Projection := .all
  distinctness : Distinctness := .none
  limit : Option Nat := none
  offset : Option Nat := none
  /-- Only whether there is a solution matters. -/
  ask : Bool := false
  construct : Option Template := none
  filters : List Filter := []

structure Query where
  pattern : GraphPattern
  modifiers : Modifiers := {}

/-! ### Solutions -/

/-- A binding of the whole graph pattern: a solution before the modifiers. -/
structure Candidate where
  binding : Binding
  /-- The earliest expiration among the tuples that the binding was joined from. -/
  expiration : Expiration
deriving DecidableEq

/-- The shape in which a solution is delivered. -/
inductive Output where
  | bindings (b : Binding)
  | constructed (tuples : List Tuple)
  | ask (answer : Bool)
deriving DecidableEq

structure Solution where
  query : QueryId
  output : Output
  expiration : Expiration
deriving DecidableEq

namespace Modifiers

/-- The shape the modifiers give to a solution. -/
def output (m : Modifiers) (b : Binding) : Output :=
  if m.ask then .ask true
  else match m.construct with
    | some template => .constructed (template b)
    | none => .bindings (m.projection.apply b)

end Modifiers

end StandingQuery
