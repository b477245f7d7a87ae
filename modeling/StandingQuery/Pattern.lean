import StandingQuery.Binding

/-! Tuple patterns.

A pattern is a tuple with variables in some of its places. Matching a tuple against
a pattern of the same arity binds each variable to the term in its place; a variable
that occurs twice has to meet the same term twice. Instantiating goes the other way.

The constants of a pattern are summarised by a *mask*, a number whose bit `i` says
that place `i` holds a constant: two patterns with the same mask and the same
constants admit the same tuples up to repeated variables. -/
namespace StandingQuery

/-- One place of a pattern. -/
inductive Slot where
  | var (v : Variable)
  | const (t : Term)
deriving DecidableEq, Inhabited

namespace Slot

def isConst : Slot → Bool
  | .const _ => true
  | .var _ => false

def asVariable? : Slot → Option Variable
  | .var v => some v
  | .const _ => none

def asTerm? : Slot → Option Term
  | .const t => some t
  | .var _ => none

/-- The term a slot stands for under a binding. -/
def resolve (b : Binding) : Slot → Option Term
  | .var v => b[v]?
  | .const t => some t

/-- A sigil in front makes a variable, anything else is a constant. -/
def ofSpelling (s : String) : Slot :=
  if s.toList.head?.any Variable.isSigil then .var (.ofSpelling s) else .const ⟨s⟩

instance : ToString Slot where
  toString
    | .var v => toString v
    | .const t => t.text

end Slot

/-- One edge of a query's graph pattern. -/
structure TuplePattern where
  slots : List Slot
deriving DecidableEq, Inhabited

namespace TuplePattern

def arity (p : TuplePattern) : Nat := p.slots.length

/-- The variables of the pattern, each once, in the order of their names. -/
def vars (p : TuplePattern) : List Variable :=
  (Std.ExtTreeSet.ofList (p.slots.filterMap Slot.asVariable?)).toList

/-- The terms of the constant places, in order. -/
def constants (p : TuplePattern) : List Term := p.slots.filterMap Slot.asTerm?

/-- The number whose bits are the given truth values, the first one lowest. -/
def maskOf : List Bool → Nat
  | [] => 0
  | b :: rest => b.toNat + 2 * maskOf rest

/-- Bit `i` is set when place `i` holds a constant. -/
def constantMask (p : TuplePattern) : Nat := maskOf (p.slots.map Slot.isConst)

/-- Matches the places one by one, extending what earlier places have bound. -/
def matchFrom (b : Binding) : List Slot → List Term → Option Binding
  | [], [] => some b
  | .const c :: slots, t :: terms => if c = t then matchFrom b slots terms else none
  | .var v :: slots, t :: terms =>
    match b[v]? with
    | some bound => if bound = t then matchFrom b slots terms else none
    | none => matchFrom (b.insert v t) slots terms
  | _, _ => none

/-- What the pattern binds on the tuple, if it matches. -/
def match? (p : TuplePattern) (t : Tuple) : Option Binding := matchFrom ∅ p.slots t.terms

/-- The tuple under a binding of all variables. -/
def instantiate (p : TuplePattern) (b : Binding) : Option Tuple :=
  (p.slots.mapM (Slot.resolve b)).map Tuple.mk

instance : ToString TuplePattern := ⟨fun p => " ".intercalate (p.slots.map toString)⟩

end TuplePattern

/-- The tuple patterns of a query, in the order in which they were written. -/
abbrev GraphPattern := List TuplePattern

namespace GraphPattern

/-- The variables of all patterns, each once, in the order of their names. -/
def vars (g : GraphPattern) : List Variable :=
  (Std.ExtTreeSet.ofList (g.flatMap TuplePattern.vars)).toList

end GraphPattern

end StandingQuery
