import StandingQuery.Proofs.Connectivity

/-! What the analysis of a query finds.

Visiting patterns breadth first lists each pattern that links lead to, once, after one
that it is linked to. So an accepted query is analysed exactly: adjacency is
`Linked`, one set of patterns is adjacent to another exactly when a link leads
across, and the join order of a pattern visits all others, each linked to an earlier
one (`chained_joinOrder`, `mem_joinOrder`). -/
open Relation (ReflTransGen)

namespace StandingQuery

/-! ### Breadth first -/

/-- The list goes on from the set `V`: each entry is new and has a neighbour in `V`
or earlier in the list. -/
inductive Chained (N : Nat → PatternSet) : PatternSet → List Nat → Prop where
  | nil {V} : Chained N V []
  | cons {V j rest} : j ∉ V → (∃ i ∈ V, j ∈ N i) → Chained N (V ∪ .single j) rest →
      Chained N V (j :: rest)

section BreadthFirst

variable {N : Nat → PatternSet} {V : PatternSet} {i j n : Nat}

/-- The patterns that a step of the visit appends to the queue. -/
def freshOf (N : Nat → PatternSet) (seen : PatternSet) (current : Nat) : List Nat :=
  (N current).indices.filter fun i => !seen.contains i

theorem mem_freshOf {seen : PatternSet} : j ∈ freshOf N seen i ↔ j ∈ N i ∧ j ∉ seen := by
  unfold freshOf
  rw [List.mem_filter, PatternSet.mem_indices, Bool.not_eq_true', ← Bool.not_eq_true,
    PatternSet.contains_iff]

theorem nodup_freshOf {seen : PatternSet} : (freshOf N seen i).Nodup :=
  PatternSet.nodup_indices.filter _

theorem mem_union_singles {l : List Nat} :
    j ∈ V ∪ PatternSet.unions (l.map .single) ↔ j ∈ V ∨ j ∈ l := by
  rw [PatternSet.mem_union, PatternSet.mem_unions]
  simp

theorem breadthFirst_cons (steps : Nat) (seen : PatternSet) (current : Nat) (queue : List Nat) :
    breadthFirst N (steps + 1) seen (current :: queue) =
      freshOf N seen current ++ breadthFirst N steps
        (seen ∪ .unions ((freshOf N seen current).map .single)) (queue ++ freshOf N seen current) :=
  rfl

theorem Chained.append_fresh {fresh rest : List Nat} (hi : i ∈ V) (hnodup : fresh.Nodup)
    (hfresh : ∀ j ∈ fresh, j ∈ N i ∧ j ∉ V)
    (h : Chained N (V ∪ .unions (fresh.map .single)) rest) : Chained N V (fresh ++ rest) := by
  induction fresh generalizing V with
  | nil =>
    have : V ∪ PatternSet.unions ([].map .single) = V :=
      PatternSet.ext_mem fun k => by rw [mem_union_singles]; simp
    rwa [this] at h
  | cons j fresh ih =>
    obtain ⟨hj, hrest⟩ := List.nodup_cons.1 hnodup
    obtain ⟨hjN, hjV⟩ := hfresh j List.mem_cons_self
    refine .cons hjV ⟨i, hi, hjN⟩ (ih (by simp [hi]) hrest (fun k hk => ?_) ?_)
    · refine ⟨(hfresh k (List.mem_cons_of_mem _ hk)).1, fun hkV => ?_⟩
      rcases PatternSet.mem_union.1 hkV with hkV | hkj
      · exact (hfresh k (List.mem_cons_of_mem _ hk)).2 hkV
      · exact hj (PatternSet.mem_single.1 hkj ▸ hk)
    · have : V ∪ .single j ∪ .unions (fresh.map .single) =
          V ∪ PatternSet.unions ((j :: fresh).map .single) :=
        PatternSet.ext_mem fun k => by
          rw [mem_union_singles, mem_union_singles, PatternSet.mem_union, PatternSet.mem_single,
            List.mem_cons, or_assoc]
      rwa [this]

/-- Every pattern visited is new and a neighbour of one visited earlier. -/
theorem chained_breadthFirst (steps : Nat) (seen : PatternSet) (queue : List Nat)
    (hqueue : ∀ i ∈ queue, i ∈ seen) : Chained N seen (breadthFirst N steps seen queue) := by
  induction steps generalizing seen queue with
  | zero => exact .nil
  | succ steps ih =>
    cases queue with
    | nil => exact .nil
    | cons current queue =>
      rw [breadthFirst_cons]
      refine .append_fresh (hqueue current List.mem_cons_self) nodup_freshOf
        (fun j hj => mem_freshOf.1 hj) (ih _ _ fun i hi => ?_)
      rw [mem_union_singles]
      exact (List.mem_append.1 hi).imp_left fun h => hqueue i (List.mem_cons_of_mem _ h)

/-- The steps that are left are enough for the queue and all that can still join it. -/
theorem card_unseen_fresh (hN : ∀ i, ∀ j ∈ N i, j < n) (seen : PatternSet) (current : Nat) :
    (Finset.range n \ (seen ∪ .unions ((freshOf N seen current).map .single)).members).card +
      (freshOf N seen current).length = (Finset.range n \ seen.members).card := by
  have hsub : (freshOf N seen current).toFinset ⊆ Finset.range n \ seen.members := by
    intro j hj
    obtain ⟨hjN, hjs⟩ := mem_freshOf.1 (List.mem_toFinset.1 hj)
    exact Finset.mem_sdiff.2 ⟨Finset.mem_range.2 (hN _ j hjN), fun h => hjs (PatternSet.mem_members.1 h)⟩
  have heq : Finset.range n \ (seen ∪ .unions ((freshOf N seen current).map .single)).members =
      (Finset.range n \ seen.members) \ (freshOf N seen current).toFinset := by
    ext j
    simp only [Finset.mem_sdiff, PatternSet.mem_members, mem_union_singles, List.mem_toFinset,
      not_or, and_assoc]
  rw [heq, ← List.toFinset_card_of_nodup nodup_freshOf]
  exact Finset.card_sdiff_add_card_eq_card hsub

/-- What is visited is closed: the neighbours of a visited pattern are visited. -/
theorem breadthFirst_closed (hN : ∀ i, ∀ j ∈ N i, j < n) (steps : Nat) (seen : PatternSet)
    (queue : List Nat) (hqueue : ∀ i ∈ queue, i ∈ seen)
    (hsteps : queue.length + (Finset.range n \ seen.members).card ≤ steps)
    (hdone : ∀ i ∈ seen, i ∉ queue → ∀ j ∈ N i, j ∈ seen) :
    ∀ i, (i ∈ seen ∨ i ∈ breadthFirst N steps seen queue) →
      ∀ j ∈ N i, j ∈ seen ∨ j ∈ breadthFirst N steps seen queue := by
  induction steps generalizing seen queue with
  | zero =>
    have hnil : queue = [] := List.eq_nil_of_length_eq_zero (by omega)
    subst hnil
    intro i hi j hj
    exact .inl (hdone i (hi.resolve_right List.not_mem_nil) List.not_mem_nil j hj)
  | succ steps ih =>
    cases queue with
    | nil =>
      intro i hi j hj
      exact .inl (hdone i (hi.resolve_right List.not_mem_nil) List.not_mem_nil j hj)
    | cons current queue =>
      have hcard := card_unseen_fresh hN seen current
      have hclosed := ih (seen ∪ .unions ((freshOf N seen current).map .single))
        (queue ++ freshOf N seen current)
        (fun i hi => by
          rw [mem_union_singles]
          exact (List.mem_append.1 hi).imp_left fun h => hqueue i (List.mem_cons_of_mem _ h))
        (by
          rw [List.length_append]
          rw [List.length_cons] at hsteps
          omega)
        (fun i hi hiq j hj => by
          rw [List.mem_append, not_or] at hiq
          rw [mem_union_singles] at hi ⊢
          have his := hi.resolve_right hiq.2
          by_cases hjs : j ∈ seen
          · exact .inl hjs
          · by_cases hic : i = current
            · subst hic
              exact .inr (mem_freshOf.2 ⟨hj, hjs⟩)
            · exact .inl (hdone i his (by simp [hic, hiq.1]) j hj))
      intro i hi j hj
      rw [breadthFirst_cons, List.mem_append, ← or_assoc, ← mem_union_singles] at hi ⊢
      exact hclosed i hi j hj

theorem Chained.nodup {order : List Nat} (h : Chained N V order) :
    order.Nodup ∧ ∀ j ∈ order, j ∉ V := by
  induction h with
  | nil => simp
  | @cons V j rest hj _ _ ih =>
    refine ⟨List.nodup_cons.2 ⟨fun hm => ih.2 j hm (by simp), ih.1⟩, fun k hk => ?_⟩
    rcases List.mem_cons.1 hk with rfl | hk
    · exact hj
    · exact fun hkV => ih.2 k hk (by simp [hkV])

/-- A path of neighbours leads to every entry. -/
theorem Chained.reachable {order : List Nat} (h : Chained N V order) :
    ∀ j ∈ order, ∃ i ∈ V, ReflTransGen (fun k l => l ∈ N k) i j := by
  induction h with
  | nil => simp
  | @cons V j rest _ hN _ ih =>
    obtain ⟨i, hi, hij⟩ := hN
    intro k hk
    rcases List.mem_cons.1 hk with rfl | hk
    · exact ⟨i, hi, .single hij⟩
    · obtain ⟨l, hl, hlk⟩ := ih k hk
      rcases PatternSet.mem_union.1 hl with hl | hl
      · exact ⟨l, hl, hlk⟩
      · rw [PatternSet.mem_single.1 hl] at hlk
        exact ⟨i, hi, .head hij hlk⟩

end BreadthFirst

/-! ### The parts of an analysis -/

namespace Analysis

variable {g : GraphPattern} {P Q : PatternSet} {i j : Nat} {v : Variable}

theorem size_ofPattern : (ofPattern g).size = g.length := by
  simp [size, ofPattern]

theorem varsOf_ofPattern : (ofPattern g).varsOf i = g.varsAt i := by
  simp [varsOf, ofPattern, GraphPattern.varsAt]

theorem sharesVariable_iff {vs ws : List Variable} :
    sharesVariable vs ws = true ↔ ∃ v ∈ vs, v ∈ ws := by
  simp [sharesVariable]

theorem mem_neighboursOf :
    j ∈ neighboursOf (g.map TuplePattern.vars) i ↔ g.Linked i j := by
  have hvars : ∀ k, (g.map TuplePattern.vars)[k]?.getD [] = g.varsAt k := fun k => by
    simp [GraphPattern.varsAt]
  unfold neighboursOf
  rw [PatternSet.mem_unions]
  simp only [hvars, List.mem_map, List.mem_range, List.length_map, sharesVariable_iff]
  constructor
  · rintro ⟨s, ⟨k, -, rfl⟩, hj⟩
    split at hj
    · next hik =>
      rw [PatternSet.mem_single.1 hj]
      exact hik
    · exact absurd hj PatternSet.not_mem_empty
  · intro h
    refine ⟨.single j, ⟨j, h.lt_right, ?_⟩, by simp⟩
    rw [if_pos ⟨h.1, h.2⟩]

/-- Adjacency is being linked. -/
theorem mem_adjacency : j ∈ (ofPattern g).adjacency[i]?.getD ∅ ↔ g.Linked i j := by
  by_cases hi : i < g.length
  · have : (ofPattern g).adjacency[i]? = some (neighboursOf (g.map TuplePattern.vars) i) := by
      simp [ofPattern, hi]
    rw [this]
    exact mem_neighboursOf
  · have : (ofPattern g).adjacency[i]? = none := by
      simp [ofPattern, Nat.le_of_not_lt hi]
    rw [this]
    exact ⟨fun h => absurd h PatternSet.not_mem_empty, fun h => absurd h.symm.lt_right hi⟩

theorem mem_neighbours : j ∈ (ofPattern g).neighbours P ↔ ∃ i ∈ P, g.Linked i j := by
  unfold neighbours
  rw [PatternSet.mem_unions]
  constructor
  · rintro ⟨s, hs, hj⟩
    obtain ⟨i, hi, rfl⟩ := List.mem_map.1 hs
    exact ⟨i, PatternSet.mem_indices.1 hi, mem_adjacency.1 hj⟩
  · rintro ⟨i, hi, hij⟩
    exact ⟨_, List.mem_map.2 ⟨i, PatternSet.mem_indices.2 hi, rfl⟩, mem_adjacency.2 hij⟩

/-- One set is adjacent to another when a link leads across. -/
theorem adjacent_iff :
    (ofPattern g).adjacent P Q = true ↔ ∃ i ∈ P, ∃ j ∈ Q, g.Linked i j := by
  unfold adjacent
  rw [Bool.not_eq_true', ← Bool.not_eq_true, PatternSet.disjoint_iff]
  push Not
  constructor
  · rintro ⟨j, hj, hjQ⟩
    obtain ⟨i, hi, hij⟩ := mem_neighbours.1 hj
    exact ⟨i, hi, j, hjQ, hij⟩
  · rintro ⟨i, hi, j, hj, hij⟩
    exact ⟨j, mem_neighbours.2 ⟨i, hi, hij⟩, hj⟩

/-- Whatever the analysis says, there is nothing adjacent to no pattern, nor no pattern adjacent. -/
theorem exists_of_adjacent {a : Analysis} (h : a.adjacent P Q = true) :
    (∃ i, i ∈ P) ∧ ∃ j, j ∈ Q := by
  unfold adjacent at h
  rw [Bool.not_eq_true', ← Bool.not_eq_true, PatternSet.disjoint_iff] at h
  push Not at h
  obtain ⟨j, hj, hjQ⟩ := h
  obtain ⟨s, hs, -⟩ := PatternSet.mem_unions.1 hj
  obtain ⟨i, hi, -⟩ := List.mem_map.1 hs
  exact ⟨⟨i, PatternSet.mem_indices.1 hi⟩, j, hjQ⟩

/-- The variable that is picked occurs on both sides. -/
theorem sharedVariable_eq_some (h : (ofPattern g).sharedVariable P Q = some v) :
    (∃ i ∈ P, v ∈ g.varsAt i) ∧ ∃ j ∈ Q, v ∈ g.varsAt j := by
  constructor
  · obtain ⟨k, hk, hv⟩ := List.mem_flatMap.1 (List.mem_of_find?_eq_some h)
    exact ⟨k, PatternSet.mem_indices.1 hk, by rwa [varsOf_ofPattern] at hv⟩
  · have hany : (Q.indices.any fun j => ((ofPattern g).varsOf j).contains v) = true :=
      List.find?_some (p := fun v => Q.indices.any fun j => ((ofPattern g).varsOf j).contains v) h
    obtain ⟨k, hk, hv⟩ := List.any_eq_true.1 hany
    exact ⟨k, PatternSet.mem_indices.1 hk, by simpa [varsOf_ofPattern] using hv⟩

/-- Across a link a variable is picked. -/
theorem sharedVariable_of_linked (hi : i ∈ P) (hj : j ∈ Q) (hij : g.Linked i j) :
    ∃ v, (ofPattern g).sharedVariable P Q = some v := by
  obtain ⟨-, w, hwi, hwj⟩ := hij
  cases hfind : (ofPattern g).sharedVariable P Q with
  | some v => exact ⟨v, rfl⟩
  | none =>
    refine absurd (List.find?_eq_none.1 hfind w ?_) ?_
    · exact List.mem_flatMap.2 ⟨i, PatternSet.mem_indices.2 hi, by rwa [varsOf_ofPattern]⟩
    · rw [Classical.not_not, List.any_eq_true]
      exact ⟨j, PatternSet.mem_indices.2 hj, by simpa [varsOf_ofPattern] using hwj⟩

/-- Sets of patterns that have none in common are adjacent exactly if there is a variable to pick. -/
theorem adjacent_iff_sharedVariable (h : P.disjoint Q = true) : (ofPattern g).adjacent P Q = true ↔
    ((ofPattern g).sharedVariable P Q).isSome = true := by
  rw [adjacent_iff, Option.isSome_iff_exists]
  constructor
  · rintro ⟨i, hi, j, hj, hij⟩
    exact sharedVariable_of_linked hi hj hij
  · rintro ⟨v, hv⟩
    obtain ⟨⟨i, hi, hvi⟩, j, hj, hvj⟩ := sharedVariable_eq_some hv
    refine ⟨i, hi, j, hj, fun hij => ?_, v, hvi, hvj⟩
    exact PatternSet.disjoint_iff.1 h i hi (hij ▸ hj)

/-! ### Join orders -/

/-- The neighbours of each pattern, as the joins are ordered by them. -/
def linksOf (g : GraphPattern) (i : Nat) : PatternSet := (ofPattern g).adjacency[i]?.getD ∅

theorem mem_linksOf : j ∈ linksOf g i ↔ g.Linked i j := mem_adjacency

theorem joinOrder_ofPattern (hi : i < g.length) : (ofPattern g).joinOrder i =
    breadthFirst (linksOf g) g.length (.single i) [i] := by
  have horders : (ofPattern g).joinOrders[i]? =
      some (visitOrder (ofPattern g).adjacency i) := by
    simp [ofPattern, hi]
  have hlen : (ofPattern g).adjacency.length = g.length := by simp [ofPattern]
  unfold joinOrder
  rw [horders, Option.getD_some, visitOrder, hlen]
  rfl

/-- Every pattern of a join order is linked to the first or an earlier one. -/
theorem chained_joinOrder (hi : i < g.length) :
    Chained (linksOf g) (.single i) ((ofPattern g).joinOrder i) := by
  rw [joinOrder_ofPattern hi]
  exact chained_breadthFirst _ _ _ (by simp)

theorem joinOrder_closed (hi : i < g.length) (hij : ReflTransGen g.Linked i j) :
    j = i ∨ j ∈ (ofPattern g).joinOrder i := by
  rw [joinOrder_ofPattern hi]
  have hclosed := breadthFirst_closed (N := linksOf g) (n := g.length)
    (fun k l h => (mem_linksOf.1 h).lt_right) g.length (.single i) [i] (by simp)
    (by
      rw [PatternSet.members_single, Finset.card_sdiff_of_subset (by simpa using hi),
        Finset.card_range, Finset.card_singleton, List.length_singleton]
      omega)
    (fun k hk hkq => absurd (by simpa using hk) hkq)
  induction hij with
  | refl => exact .inl rfl
  | tail _ hkl ih =>
    rename_i k l _
    have hk : k ∈ PatternSet.single i ∨ k ∈ breadthFirst (linksOf g) g.length (.single i) [i] :=
      ih.imp_left PatternSet.mem_single.2
    exact (hclosed k hk l (mem_linksOf.2 hkl)).imp_left PatternSet.mem_single.1

/-- A join order visits what links lead to, and nothing else. -/
theorem reached_iff (hi : i < g.length) :
    j = i ∨ j ∈ (ofPattern g).joinOrder i ↔ ReflTransGen g.Linked i j := by
  refine ⟨fun h => ?_, joinOrder_closed hi⟩
  rcases h with rfl | hj
  · exact .refl
  · obtain ⟨k, hk, hpath⟩ := (chained_joinOrder hi).reachable j hj
    rw [PatternSet.mem_single.1 hk] at hpath
    exact ReflTransGen.mono (fun _ _ => mem_linksOf.1) _ _ hpath

end Analysis

/-! ### Accepted queries -/

namespace GraphPattern

variable {g : GraphPattern} {a : Analysis} {i j : Nat}

/-- Any two patterns are joined by links. -/
def OnePiece (g : GraphPattern) : Prop :=
  ∀ i < g.length, ∀ j < g.length, ReflTransGen g.Linked i j

theorem linked_reachable_symm (h : ReflTransGen g.Linked i j) : ReflTransGen g.Linked j i := by
  induction h with
  | refl => exact .refl
  | tail _ hkl ih => exact .head hkl.symm ih

/-- The patterns that are not reached from the first. -/
def unreached (g : GraphPattern) : List Nat :=
  (List.range g.length).filter fun i => !(0 :: (Analysis.ofPattern g).joinOrder 0).contains i

theorem mem_unreached (hpos : 0 < g.length) :
    i ∈ g.unreached ↔ i < g.length ∧ ¬ ReflTransGen g.Linked 0 i := by
  unfold unreached
  rw [List.mem_filter, List.mem_range, Bool.not_eq_true', ← Bool.not_eq_true,
    List.contains_iff_mem, List.mem_cons, Analysis.reached_iff hpos]

theorem unreached_isEmpty_iff (hpos : 0 < g.length) :
    g.unreached.isEmpty = true ↔ g.OnePiece := by
  have hall : g.unreached.isEmpty = true ↔ ∀ i < g.length, ReflTransGen g.Linked 0 i := by
    simp only [List.isEmpty_iff, List.eq_nil_iff_forall_not_mem, mem_unreached hpos, not_and,
      Classical.not_not]
  rw [hall]
  constructor
  · intro h i hi j hj
    exact (linked_reachable_symm (h i hi)).trans (h j hj)
  · exact fun h => h 0 hpos

/-- A graph pattern of a supported size is accepted if nothing is left unreached. -/
theorem analyse_eq (hpos : 0 < g.length) (hcap : g.length ≤ PatternSet.capacity) :
    g.analyse = if g.unreached.isEmpty then .ok (.ofPattern g)
      else .error (.incompatibleQuery (.disconnected (g.unreached.filterMap (g[·]?)))) := by
  have hsome : ¬ g.isEmpty = true := by
    rw [List.isEmpty_iff]
    exact List.ne_nil_of_length_pos hpos
  unfold analyse
  rw [if_neg hsome, if_neg (Nat.not_lt.2 hcap)]
  rfl

/-- What it takes to be accepted: patterns, not too many, and all of one piece. -/
theorem analyse_eq_ok_iff : g.analyse = .ok a ↔
    0 < g.length ∧ g.length ≤ PatternSet.capacity ∧ a = .ofPattern g ∧ g.OnePiece := by
  by_cases hpos : 0 < g.length
  · by_cases hcap : g.length ≤ PatternSet.capacity
    · rw [analyse_eq hpos hcap]
      by_cases h : g.OnePiece
      · rw [if_pos ((unreached_isEmpty_iff hpos).2 h), Except.ok.injEq]
        exact ⟨fun e => ⟨hpos, hcap, e.symm, h⟩, fun e => e.2.2.1.symm⟩
      · rw [if_neg (mt (unreached_isEmpty_iff hpos).1 h)]
        exact iff_of_false (by simp) fun e => h e.2.2.2
    · have hempty : ¬ g.isEmpty = true := by
        rw [List.isEmpty_iff]
        exact List.ne_nil_of_length_pos hpos
      unfold analyse
      rw [if_neg hempty, if_pos (Nat.lt_of_not_le hcap)]
      exact iff_of_false (by simp) fun e => hcap e.2.1
  · have hempty : g.isEmpty = true := by
      rw [List.isEmpty_iff, ← List.length_eq_zero_iff]
      omega
    unfold analyse
    rw [if_pos hempty]
    exact iff_of_false (by simp) fun e => hpos e.1

theorem onePiece_of_analyse (h : g.analyse = .ok a) : g.OnePiece := (analyse_eq_ok_iff.1 h).2.2.2

/-- A join order of an accepted query visits exactly the other patterns. -/
theorem mem_joinOrder (h : g.OnePiece) (hi : i < g.length) :
    j ∈ (Analysis.ofPattern g).joinOrder i ↔ j < g.length ∧ j ≠ i := by
  constructor
  · intro hj
    have hpath := (Analysis.reached_iff hi).1 (.inr hj)
    refine ⟨?_, fun hji => (Analysis.chained_joinOrder hi).nodup.2 j hj (by simp [hji])⟩
    rcases ReflTransGen.cases_tail hpath with rfl | ⟨l, -, hlj⟩
    · exact hi
    · exact hlj.lt_right
  · intro ⟨hj, hne⟩
    exact ((Analysis.reached_iff hi).2 (h i hi j hj)).resolve_left hne

/-- The set of all patterns of an accepted query is connected. -/
theorem connected_full (h : g.OnePiece) (hpos : 0 < g.length)
    (hcap : g.length ≤ PatternSet.capacity) : g.Connected (.full g.length) where
  nonempty := ⟨0, by rw [PatternSet.mem_full, Nat.min_eq_left hcap]; exact hpos⟩
  inRange i hi := by rwa [PatternSet.mem_full, Nat.min_eq_left hcap] at hi
  reachable i hi j hj := by
    rw [PatternSet.mem_full, Nat.min_eq_left hcap] at hi hj
    refine ReflTransGen.mono (fun k l hkl => ⟨?_, hkl⟩) _ _ (h i hi j hj)
    rw [PatternSet.mem_full, Nat.min_eq_left hcap]
    exact hkl.lt_right

end GraphPattern

/-- A query that is accepted has patterns of the right arity that hang together. -/
theorem Query.validate_eq_ok {q : Query} {arity : Nat} {a : Analysis}
    (h : q.validate arity = .ok a) :
    q.pattern.analyse = .ok a ∧ ∀ p ∈ q.pattern, p.arity = arity := by
  unfold validate at h
  split at h
  · cases h
  · next hnone =>
    have harity : ∀ p ∈ q.pattern, p.arity = arity := fun p hp => by
      simpa using List.find?_eq_none.1 hnone p hp
    split at h
    · cases h
    · split at h
      · cases h
      · exact ⟨h, harity⟩

end StandingQuery
