import StandingQuery.Proofs.Analysis

/-! Indices in range: the shape of a query.

Patterns are numbered, and the program shifts words by these numbers and looks them up in the lists of
an analysis, all without a check. With every check made it is this: a function with a question mark
comes to nothing as soon as a shift is by the width of a word or more, an index is beyond the end of a
list, or a set has a member that is not the number of a pattern. Nothing of this happens, whatever
query is validated (`Query.validate?_eq`), or when the analysis of a query is asked about patterns that
the query has. -/
namespace StandingQuery

section Checks

variable {α β : Type}

/-- A check that is passed is followed by what comes next. -/
theorem bind_eq {o : Option α} {f : α → Option β} {a : α} {b : β} (h : o = some a)
    (h' : f a = some b) : (o >>= f) = some b := Option.bind_eq_some_iff.2 ⟨a, h, h'⟩

theorem mapM_eq_some {f : α → Option β} {f' : α → β} {l : List α}
    (h : ∀ x ∈ l, f x = some (f' x)) : l.mapM f = some (l.map f') := by
  induction l with
  | nil => rfl
  | cons x l ih =>
    rw [List.mapM_cons, h x List.mem_cons_self, ih fun y hy => h y (List.mem_cons_of_mem _ hy)]
    rfl

theorem filterAuxM_eq_some {f : α → Option Bool} {f' : α → Bool} {l : List α}
    (h : ∀ x ∈ l, f x = some (f' x)) (acc : List α) :
    l.filterAuxM f acc = some ((l.filter f').reverse ++ acc) := by
  induction l generalizing acc with
  | nil => rfl
  | cons x l ih =>
    unfold List.filterAuxM
    rw [h x List.mem_cons_self, List.filter_cons]
    refine (ih (fun y hy => h y (List.mem_cons_of_mem _ hy)) _).trans ?_
    cases f' x <;> simp

theorem filterM_eq_some {f : α → Option Bool} {f' : α → Bool} {l : List α}
    (h : ∀ x ∈ l, f x = some (f' x)) : l.filterM f = some (l.filter f') := by
  unfold List.filterM
  rw [filterAuxM_eq_some h, List.append_nil]
  exact congrArg some (List.reverse_reverse _)

theorem mapM_eq_some_filterMap {f : α → Option β} {l : List α} (h : ∀ x ∈ l, ∃ y, f x = some y) :
    l.mapM f = some (l.filterMap f) := by
  induction l with
  | nil => rfl
  | cons x l ih =>
    obtain ⟨y, hy⟩ := h x List.mem_cons_self
    rw [List.mapM_cons, List.filterMap_cons_some hy, hy, ih fun z hz => h z (List.mem_cons_of_mem _ hz)]
    rfl

theorem getElem?_eq_some_getD {l : List α} {i : Nat} (h : i < l.length) (d : α) :
    l[i]? = some (l[i]?.getD d) := by
  rw [List.getElem?_eq_getElem h, Option.getD_some]

end Checks

namespace PatternSet

/-- The word in which one bit is set. There are as many bits as a query can have patterns. -/
def bit? (i : Nat) : Option Nat := if i < capacity then some (1 <<< i) else none

/-- The set, provided that it is one of the first `n` indices. -/
def within? (n : Nat) (s : PatternSet) : Option PatternSet :=
  if ∀ i ∈ s.indices, i < n then some s else none

def single? (n i : Nat) : Option PatternSet := do within? n ⟨← bit? i⟩

/-- All bits are set, or those below the bit of `n`. -/
def full? (n : Nat) : Option PatternSet := do
  if capacity ≤ n then within? n ⟨UInt64.size - 1⟩ else within? n ⟨(← bit? n) - 1⟩

def union? (n : Nat) (s t : PatternSet) : Option PatternSet := within? n (s ∪ t)

def contains? (s : PatternSet) (i : Nat) : Option Bool := do return s.bits &&& (← bit? i) != 0

def indices? (s : PatternSet) : Option (List Nat) := (List.range capacity).filterM s.contains?

variable {s t : PatternSet} {i n : Nat}

theorem bit?_eq (h : i < capacity) : bit? i = some (1 <<< i) := if_pos h

theorem within?_eq (h : ∀ i ∈ s, i < n) : within? n s = some s :=
  if_pos fun i hi => h i (mem_indices.1 hi)

theorem single?_eq (hn : n ≤ capacity) (hi : i < n) : single? n i = some (single i) := by
  unfold single?
  rw [bit?_eq (Nat.lt_of_lt_of_le hi hn)]
  exact within?_eq fun j hj => mem_single.1 hj ▸ hi

theorem full?_eq (n : Nat) : full? n = some (full n) := by
  have hfull : within? n (full n) = some (full n) :=
    within?_eq fun i hi => Nat.lt_of_lt_of_le (mem_full.1 hi) (Nat.min_le_left ..)
  unfold full?
  split
  · next h =>
    unfold full at hfull ⊢
    rw [Nat.min_eq_right h] at hfull ⊢
    exact hfull
  · next h =>
    have hlt := Nat.lt_of_not_le h
    rw [bit?_eq hlt]
    unfold full at hfull ⊢
    rw [Nat.min_eq_left hlt.le] at hfull ⊢
    exact hfull

theorem union?_eq (hs : ∀ i ∈ s, i < n) (ht : ∀ i ∈ t, i < n) : union? n s t = some (s ∪ t) :=
  within?_eq fun i hi => (mem_union.1 hi).elim (hs i) (ht i)

theorem contains?_eq (hn : n ≤ capacity) (h : i < n) : s.contains? i = some (s.contains i) := by
  unfold contains?
  rw [bit?_eq (Nat.lt_of_lt_of_le h hn)]
  show some (s.bits &&& 1 <<< i != 0) = some (s.bits.testBit i)
  rw [Nat.one_shiftLeft, Nat.and_two_pow]
  cases s.bits.testBit i <;> simp

theorem indices?_eq (hn : n ≤ capacity) (h : ∀ i ∈ s, i < n) : s.indices? = some s.indices := by
  unfold indices?
  rw [indices_eq fun i hi => Nat.lt_of_lt_of_le (h i hi) hn]
  exact filterM_eq_some fun i hi => contains?_eq (Nat.le_refl _) (List.mem_range.1 hi)

end PatternSet

/-! ### Analysing -/

/-- `breadthFirst` along an adjacency list. -/
def breadthFirst? (adjacency : List PatternSet) : Nat → PatternSet → List Nat → Option (List Nat)
  | 0, _, _ => some []
  | _ + 1, _, [] => some []
  | steps + 1, seen, current :: queue => do
    let neighbours ← adjacency[current]?
    let fresh ← (← neighbours.indices?).filterM fun i => do return !(← seen.contains? i)
    let singles ← fresh.mapM (PatternSet.single? adjacency.length)
    let seen ← PatternSet.union? adjacency.length seen (.unions singles)
    return fresh ++ (← breadthFirst? adjacency steps seen (queue ++ fresh))

namespace Analysis

def neighboursOf? (vars : List (List Variable)) (i : Nat) : Option PatternSet := do
  let sets ← (List.range vars.length).mapM fun j => do
    if i ≠ j ∧ sharesVariable (← vars[i]?) (← vars[j]?) then PatternSet.single? vars.length j
    else return ∅
  PatternSet.within? vars.length (.unions sets)

def visitOrder? (adjacency : List PatternSet) (start : Nat) : Option (List Nat) := do
  breadthFirst? adjacency adjacency.length (← PatternSet.single? adjacency.length start) [start]

def ofPattern? (g : GraphPattern) : Option Analysis := do
  let vars := g.map TuplePattern.vars
  let adjacency ← (List.range g.length).mapM (neighboursOf? vars)
  return { vars, adjacency, joinOrders := ← (List.range g.length).mapM (visitOrder? adjacency) }

def full? (a : Analysis) : Option PatternSet := PatternSet.full? a.size

def neighbours? (a : Analysis) (s : PatternSet) : Option PatternSet := do
  let sets ← (← s.indices?).mapM (a.adjacency[·]?)
  PatternSet.within? a.size (.unions sets)

def adjacent? (a : Analysis) (s t : PatternSet) : Option Bool := do
  return !(← a.neighbours? s).disjoint t

/-- The variables of the patterns in a set. -/
def varsIn? (a : Analysis) (s : PatternSet) : Option (List (List Variable)) := do
  (← s.indices?).mapM (a.vars[·]?)

def sharedVariable? (a : Analysis) (s t : PatternSet) : Option (Option Variable) := do
  let left ← a.varsIn? s
  let right ← a.varsIn? t
  return left.flatten.find? fun v => right.any (·.contains v)

end Analysis

def GraphPattern.analyse? (g : GraphPattern) : Option (Except Error Analysis) := do
  if g.isEmpty then return .error (.invalidQuery .noTuplePatterns)
  else if PatternSet.capacity < g.length then
    return .error (.incompatibleQuery (.tooManyPatterns g.length))
  else
    let analysis ← Analysis.ofPattern? g
    let reached := 0 :: (← analysis.joinOrders[0]?)
    let unreached := (List.range g.length).filter fun i => !reached.contains i
    if unreached.isEmpty then return .ok analysis
    else return .error (.incompatibleQuery (.disconnected (← unreached.mapM (g[·]?))))

def Query.validate? (q : Query) (arity : Nat) : Option (Except Error Analysis) :=
  match q.pattern.find? (·.arity ≠ arity) with
  | some bad => some (.error (.incompatibleQuery (.arity bad arity)))
  | none =>
    if q.modifiers.ask && q.modifiers.construct.isSome then
      some (.error (.incompatibleQuery .askAndConstruct))
    else
      match q.modifiers.projection.missing q.pattern with
      | some v => some (.error (.incompatibleQuery (.unboundProjection v)))
      | none => q.pattern.analyse?

/-! ### Nothing is out of place -/

theorem unions_inRange {sets : List PatternSet} {n : Nat} (h : ∀ s ∈ sets, ∀ i ∈ s, i < n) :
    ∀ i ∈ PatternSet.unions sets, i < n := by
  intro i hi
  obtain ⟨s, hs, hi⟩ := PatternSet.mem_unions.1 hi
  exact h s hs i hi

theorem unions_single_inRange {l : List Nat} {n : Nat} (h : ∀ i ∈ l, i < n) :
    ∀ i ∈ PatternSet.unions (l.map .single), i < n := by
  refine unions_inRange fun s hs i hi => ?_
  obtain ⟨j, hj, rfl⟩ := List.mem_map.1 hs
  exact PatternSet.mem_single.1 hi ▸ h j hj

theorem breadthFirst?_eq {adjacency : List PatternSet}
    (hcap : adjacency.length ≤ PatternSet.capacity)
    (hadj : ∀ s ∈ adjacency, ∀ i ∈ s, i < adjacency.length) (steps : Nat) {seen : PatternSet}
    {queue : List Nat} (hseen : ∀ i ∈ seen, i < adjacency.length)
    (hqueue : ∀ i ∈ queue, i < adjacency.length) : breadthFirst? adjacency steps seen queue =
      some (breadthFirst (fun i => adjacency[i]?.getD ∅) steps seen queue) := by
  induction steps generalizing seen queue with
  | zero => rfl
  | succ steps ih =>
    cases queue with
    | nil => rfl
    | cons current queue =>
      have hcurrent := hqueue current List.mem_cons_self
      have hget := List.getElem?_eq_getElem hcurrent
      have hneighbours := hadj _ (List.getElem_mem hcurrent)
      generalize adjacency[current] = neighbours at hget hneighbours
      have hindices := PatternSet.indices?_eq hcap hneighbours
      have hfresh : neighbours.indices.filterM (fun i => do return !(← seen.contains? i)) =
          some (neighbours.indices.filter fun i => !seen.contains i) :=
        filterM_eq_some fun i hi => bind_eq
          (PatternSet.contains?_eq hcap (hneighbours i (PatternSet.mem_indices.1 hi))) rfl
      have hlt : ∀ i ∈ neighbours.indices.filter fun i => !seen.contains i, i < adjacency.length :=
        fun i hi => hneighbours i (PatternSet.mem_indices.1 (List.mem_filter.1 hi).1)
      have hsingles := mapM_eq_some fun i hi => PatternSet.single?_eq hcap (hlt i hi)
      have hunion := PatternSet.union?_eq hseen (unions_single_inRange hlt)
      have hrest := ih (fun i hi => (PatternSet.mem_union.1 hi).elim (hseen i)
        (unions_single_inRange hlt i)) (fun i hi => (List.mem_append.1 hi).elim
          (fun hi => hqueue i (List.mem_cons_of_mem _ hi)) (hlt i))
      unfold breadthFirst? breadthFirst
      rw [hget, Option.getD_some]
      -- The checks of a step, in the order in which they are made.
      exact bind_eq rfl <| bind_eq hindices <| bind_eq hfresh <| bind_eq hsingles <|
        bind_eq hunion <| bind_eq hrest rfl

namespace Analysis

variable {vars : List (List Variable)} {adjacency : List PatternSet} {g : GraphPattern} {i : Nat}

theorem neighboursOf_inRange (vars : List (List Variable)) (i : Nat) :
    ∀ j ∈ neighboursOf vars i, j < vars.length := by
  refine unions_inRange fun s hs j hj => ?_
  obtain ⟨k, hk, rfl⟩ := List.mem_map.1 hs
  split at hj
  · exact PatternSet.mem_single.1 hj ▸ List.mem_range.1 hk
  · exact absurd hj PatternSet.not_mem_empty

theorem neighboursOf?_eq (hcap : vars.length ≤ PatternSet.capacity) (hi : i < vars.length) :
    neighboursOf? vars i = some (neighboursOf vars i) := by
  unfold neighboursOf? neighboursOf
  refine bind_eq (mapM_eq_some fun j hj => ?_) (PatternSet.within?_eq (neighboursOf_inRange vars i))
  have hj := List.mem_range.1 hj
  rw [List.getElem?_eq_getElem hi, List.getElem?_eq_getElem hj]
  show (if i ≠ j ∧ sharesVariable vars[i] vars[j] = true then _ else _) = some (if i ≠ j ∧
    sharesVariable vars[i] vars[j] = true then _ else _)
  split
  · exact PatternSet.single?_eq hcap hj
  · rfl

theorem visitOrder?_eq (hcap : adjacency.length ≤ PatternSet.capacity)
    (hadj : ∀ s ∈ adjacency, ∀ i ∈ s, i < adjacency.length) (hi : i < adjacency.length) :
    visitOrder? adjacency i = some (visitOrder adjacency i) := by
  refine bind_eq (PatternSet.single?_eq hcap hi) (breadthFirst?_eq hcap hadj _ ?_ ?_)
  · exact fun j hj => PatternSet.mem_single.1 hj ▸ hi
  · exact fun j hj => List.mem_singleton.1 hj ▸ hi

theorem length_adjacency : (ofPattern g).adjacency.length = g.length := by
  show ((List.range g.length).map _).length = _
  rw [List.length_map, List.length_range]

theorem length_joinOrders : (ofPattern g).joinOrders.length = g.length := by
  show ((List.range g.length).map _).length = _
  rw [List.length_map, List.length_range]

theorem adjacency_inRange : ∀ s ∈ (ofPattern g).adjacency, ∀ i ∈ s, i < g.length := by
  intro s hs i hi
  obtain ⟨k, hk, rfl⟩ := List.mem_map.1 hs
  have hlt := neighboursOf_inRange _ k i hi
  rwa [List.length_map] at hlt

theorem neighbours_inRange (P : PatternSet) : ∀ i ∈ (ofPattern g).neighbours P, i < g.length := by
  intro j hj
  obtain ⟨i, -, hij⟩ := mem_neighbours.1 hj
  exact hij.lt_right

theorem joinOrder_inRange (hi : i < g.length) : ∀ j ∈ (ofPattern g).joinOrder i, j < g.length := by
  intro j hj
  obtain hpath := (reached_iff hi).1 (.inr hj)
  rcases Relation.ReflTransGen.cases_tail hpath with rfl | ⟨k, -, hkj⟩
  · exact hi
  · exact hkj.lt_right

theorem ofPattern?_eq (hcap : g.length ≤ PatternSet.capacity) :
    ofPattern? g = some (ofPattern g) := by
  have hvars : (g.map TuplePattern.vars).length = g.length := List.length_map _
  have hadjacency : (List.range g.length).mapM (neighboursOf? (g.map TuplePattern.vars)) =
      some (ofPattern g).adjacency :=
    mapM_eq_some fun i hi =>
      neighboursOf?_eq (hvars ▸ hcap) (hvars ▸ List.mem_range.1 hi)
  have horders : (List.range g.length).mapM (visitOrder? (ofPattern g).adjacency) =
      some (ofPattern g).joinOrders :=
    mapM_eq_some fun i hi => visitOrder?_eq (length_adjacency ▸ hcap)
      (length_adjacency ▸ adjacency_inRange) (length_adjacency ▸ List.mem_range.1 hi)
  exact bind_eq hadjacency <| bind_eq horders rfl

theorem vars_getElem? (hi : i < g.length) : (ofPattern g).vars[i]? = some ((ofPattern g).varsOf i) := by
  have hsize : (ofPattern g).vars.length = g.length := size_ofPattern
  exact getElem?_eq_some_getD (hsize.symm ▸ hi) []

theorem joinOrders_getElem? (hi : i < g.length) :
    (ofPattern g).joinOrders[i]? = some ((ofPattern g).joinOrder i) :=
  getElem?_eq_some_getD (length_joinOrders ▸ hi) []

section Asked

variable {P Q : PatternSet}
variable (hcap : g.length ≤ PatternSet.capacity) (hP : ∀ i ∈ P, i < g.length)
include hcap hP

theorem neighbours?_eq : (ofPattern g).neighbours? P = some ((ofPattern g).neighbours P) := by
  refine bind_eq (PatternSet.indices?_eq hcap hP) <|
    bind_eq (mapM_eq_some fun i hi => getElem?_eq_some_getD ?_ ∅) <| PatternSet.within?_eq ?_
  · rw [length_adjacency]
    exact hP i (PatternSet.mem_indices.1 hi)
  · rw [size_ofPattern]
    exact neighbours_inRange P

theorem adjacent?_eq (Q : PatternSet) :
    (ofPattern g).adjacent? P Q = some ((ofPattern g).adjacent P Q) :=
  bind_eq (neighbours?_eq hcap hP) rfl

theorem varsIn?_eq : (ofPattern g).varsIn? P = some (P.indices.map (ofPattern g).varsOf) :=
  bind_eq (PatternSet.indices?_eq hcap hP) <|
    mapM_eq_some fun i hi => vars_getElem? (hP i (PatternSet.mem_indices.1 hi))

theorem sharedVariable?_eq (hQ : ∀ i ∈ Q, i < g.length) :
    (ofPattern g).sharedVariable? P Q = some ((ofPattern g).sharedVariable P Q) := by
  refine bind_eq (varsIn?_eq hcap hP) <| bind_eq (varsIn?_eq hcap hQ) ?_
  simp only [List.any_map, sharedVariable, List.flatMap_def]
  rfl

end Asked

end Analysis

/-- A graph pattern is analysed without an index out of place, accepted or not. -/
theorem GraphPattern.analyse?_eq (g : GraphPattern) : g.analyse? = some g.analyse := by
  unfold analyse? analyse
  split
  · rfl
  · next hempty =>
    split
    · rfl
    · next hcap =>
      have hpos : 0 < g.length := List.length_pos_iff.2 fun h => hempty (List.isEmpty_iff.2 h)
      refine bind_eq (Analysis.ofPattern?_eq (Nat.le_of_not_lt hcap)) <|
        bind_eq (Analysis.joinOrders_getElem? hpos) ?_
      dsimp only
      split
      · rfl
      · refine bind_eq (mapM_eq_some_filterMap fun i hi => ?_) rfl
        exact ⟨_, List.getElem?_eq_getElem (List.mem_range.1 (List.mem_filter.1 hi).1)⟩

theorem Query.validate?_eq (q : Query) (arity : Nat) : q.validate? arity = some (q.validate arity) := by
  unfold validate? validate
  cases q.pattern.find? (·.arity ≠ arity) with
  | some bad => rfl
  | none =>
    dsimp only
    split
    · rfl
    · cases q.modifiers.projection.missing q.pattern with
      | some v => rfl
      | none => exact q.pattern.analyse?_eq

end StandingQuery
