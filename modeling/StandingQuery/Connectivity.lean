import StandingQuery.Query

/-! How the patterns of a query hang together.

Two patterns are *adjacent* when they share a variable. A query is accepted only if
its patterns form one connected component, so that no cross product is ever
evaluated. What is found out on the way is kept as the query's `Analysis`: the
variables of each pattern, its neighbours, and for every pattern an order in which
the others can be joined to it, each sharing a variable with an earlier one. -/
namespace StandingQuery

/-- The patterns that can be visited from those in the queue, in breadth-first order.
`seen` holds the patterns visited or queued; a pattern is taken from the queue at
most once, so as many steps as there are patterns suffice. -/
def breadthFirst (neighbours : Nat → PatternSet) : Nat → PatternSet → List Nat → List Nat
  | 0, _, _ => []
  | _ + 1, _, [] => []
  | steps + 1, seen, current :: queue =>
    let fresh := (neighbours current).indices.filter fun i => !seen.contains i
    fresh ++
      breadthFirst neighbours steps (seen ∪ .unions (fresh.map .single)) (queue ++ fresh)

/-- What is known about the shape of a query. -/
structure Analysis where
  /-- The variables of each pattern in the order of their names. -/
  vars : List (List Variable)
  /-- The neighbours of each pattern. -/
  adjacency : List PatternSet
  /-- For each pattern, the order in which to visit the others. -/
  joinOrders : List (List Nat)
deriving DecidableEq, Inhabited

namespace Analysis

def sharesVariable (vs ws : List Variable) : Bool := vs.any ws.contains

/-- The patterns other than `i` that share a variable with it. -/
def neighboursOf (vars : List (List Variable)) (i : Nat) : PatternSet :=
  .unions <| (List.range vars.length).map fun j =>
    if i ≠ j ∧ sharesVariable (vars[i]?.getD []) (vars[j]?.getD []) then .single j else ∅

/-- The patterns reached from `start`, without it, in breadth-first order. -/
def visitOrder (adjacency : List PatternSet) (start : Nat) : List Nat :=
  breadthFirst (fun i => adjacency[i]?.getD ∅) adjacency.length (.single start) [start]

def ofPattern (g : GraphPattern) : Analysis :=
  let vars := g.map TuplePattern.vars
  let adjacency := (List.range g.length).map (neighboursOf vars)
  { vars, adjacency, joinOrders := (List.range g.length).map (visitOrder adjacency) }

/-- The number of patterns. -/
def size (a : Analysis) : Nat := a.vars.length

/-- All patterns. -/
def full (a : Analysis) : PatternSet := .full a.size

def varsOf (a : Analysis) (i : Nat) : List Variable := a.vars[i]?.getD []

/-- The patterns that are adjacent to a member of `s`. -/
def neighbours (a : Analysis) (s : PatternSet) : PatternSet :=
  .unions (s.indices.map fun i => a.adjacency[i]?.getD ∅)

def adjacent (a : Analysis) (s t : PatternSet) : Bool := !(a.neighbours s).disjoint t

/-- A variable that occurs on both sides: the first one, pattern by pattern of `s`
and by name within a pattern, that occurs in a pattern of `t`. -/
def sharedVariable (a : Analysis) (s t : PatternSet) : Option Variable :=
  (s.indices.flatMap a.varsOf).find? fun v => t.indices.any fun j => (a.varsOf j).contains v

/-- The order in which the other patterns are joined to pattern `start`. -/
def joinOrder (a : Analysis) (start : Nat) : List Nat := a.joinOrders[start]?.getD []

end Analysis

/-- Accepts a graph pattern that is one connected component of a supported size. -/
def GraphPattern.analyse (g : GraphPattern) : Except Error Analysis :=
  if g.isEmpty then .error (.invalidQuery .noTuplePatterns)
  else if PatternSet.capacity < g.length then
    .error (.incompatibleQuery (.tooManyPatterns g.length))
  else
    let analysis := Analysis.ofPattern g
    let reached := 0 :: analysis.joinOrder 0
    let unreached := (List.range g.length).filter fun i => !reached.contains i
    if unreached.isEmpty then .ok analysis
    else .error (.incompatibleQuery (.disconnected (unreached.filterMap (g[·]?))))

/-- The first projected variable that the pattern does not bind. -/
def Projection.missing : Projection → GraphPattern → Option Variable
  | .all, _ => none
  | .only vars, g => vars.find? fun v => !g.vars.contains v

namespace Query

/-- Refuses a query whose parts do not fit each other or the arity of the stream.
Of several faults the first one in this order is reported. -/
def validate (q : Query) (arity : Nat) : Except Error Analysis :=
  match q.pattern.find? (·.arity ≠ arity) with
  | some bad => .error (.incompatibleQuery (.arity bad arity))
  | none =>
    if q.modifiers.ask && q.modifiers.construct.isSome then
      .error (.incompatibleQuery .askAndConstruct)
    else
      match q.modifiers.projection.missing q.pattern with
      | some v => .error (.incompatibleQuery (.unboundProjection v))
      | none => q.pattern.analyse

end Query

end StandingQuery
