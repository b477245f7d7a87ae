import Mathlib.Logic.Relation
import StandingQuery.Connectivity
import StandingQuery.Proofs.Pattern
import StandingQuery.Proofs.PatternSet

/-! What the analysis of a query finds.

Two patterns are `Linked` when they are different and share a variable, and a set of
patterns is `Connected` when links inside the set lead from any member to any other.
An accepted query is analysed exactly (`analyse_eq_ok_iff`): adjacency is `Linked`,
a set of patterns is adjacent to another exactly when a link leads across, and the
order in which the others are joined to a pattern visits each of them once, linked
to an earlier one (`chained_joinOrder`, `mem_joinOrder`).

A connected set can be built up from any of its members, one linked pattern at a
time (`grown_of_connected`). That is what makes the joins complete. -/
open Relation (ReflTransGen)

namespace StandingQuery

namespace GraphPattern

/-- The variables of pattern `i`; none if there is no such pattern. -/
def varsAt (g : GraphPattern) (i : Nat) : List Variable := (g[i]?.map TuplePattern.vars).getD []

/-- The two patterns are different and share a variable. -/
def Linked (g : GraphPattern) (i j : Nat) : Prop := i ≠ j ∧ ∃ v ∈ g.varsAt i, v ∈ g.varsAt j

/-- A nonempty set of patterns any two of which are connected by links inside the set. -/
structure Connected (g : GraphPattern) (P : PatternSet) : Prop where
  nonempty : ∃ i, i ∈ P
  inRange : ∀ i ∈ P, i < g.length
  reachable : ∀ i ∈ P, ∀ j ∈ P, ReflTransGen (fun k l => l ∈ P ∧ g.Linked k l) i j

/-- Built up from pattern `i` by adding one linked pattern at a time. -/
inductive Grown (g : GraphPattern) (i : Nat) : PatternSet → Prop where
  | seed : Grown g i (.single i)
  | grow {P j} : Grown g i P → j ∉ P → (∃ k ∈ P, g.Linked k j) → Grown g i (P ∪ .single j)

variable {g : GraphPattern} {P Q : PatternSet} {i j k : Nat} {v : Variable}

theorem Linked.symm (h : g.Linked i j) : g.Linked j i :=
  ⟨h.1.symm, h.2.imp fun _ h => ⟨h.2, h.1⟩⟩

theorem lt_of_mem_varsAt (h : v ∈ g.varsAt i) : i < g.length := by
  by_contra hi
  simp [varsAt, List.getElem?_eq_none (Nat.le_of_not_lt hi)] at h

theorem Linked.lt_right (h : g.Linked i j) : j < g.length := by
  obtain ⟨-, v, -, hv⟩ := h
  exact lt_of_mem_varsAt hv

theorem varsAt_of_getElem? {p : TuplePattern} (h : g[i]? = some p) : g.varsAt i = p.vars := by
  simp [varsAt, h]

/-! ### Growing a connected set -/

theorem Grown.mem_seed (h : g.Grown i P) : i ∈ P := by
  induction h with
  | seed => simp
  | grow _ _ _ ih => simp [ih]

/-- From a grown part of a connected set a link leads out, unless it is all of the set. -/
theorem Connected.exists_linked (h : g.Connected P) (hQ : ∀ k ∈ Q, k ∈ P) (hi : i ∈ Q)
    (hj : j ∈ P) (hjQ : j ∉ Q) : ∃ k ∈ Q, ∃ l ∈ P, l ∉ Q ∧ g.Linked k l := by
  have path := h.reachable i (hQ i hi) j hj
  induction path with
  | refl => exact absurd hi hjQ
  | tail _ hstep ih =>
    rename_i k l _
    by_cases hk : k ∈ Q
    · exact ⟨k, hk, l, hstep.1, hjQ, hstep.2⟩
    · have hkP : k ∈ P := by
        rename_i path
        rcases ReflTransGen.cases_tail path with rfl | ⟨_, _, hlast⟩
        · exact absurd hi hk
        · exact hlast.1
      exact ih hkP hk

theorem grown_of_connected (h : g.Connected P) (hi : i ∈ P) : g.Grown i P := by
  -- The part that is still missing gets smaller with every pattern added.
  suffices ∀ n Q, g.Grown i Q → (∀ k ∈ Q, k ∈ P) → P.size - Q.size ≤ n → g.Grown i P from
    this P.size (.single i) .seed (fun k hk => by rw [PatternSet.mem_single.1 hk]; exact hi)
      (Nat.sub_le _ _)
  intro n
  induction n with
  | zero =>
    intro Q hQ hsub hn
    have hcard : P.members.card ≤ Q.members.card := by
      rw [PatternSet.card_members, PatternSet.card_members]
      omega
    have hmem := Finset.eq_of_subset_of_card_le
      (fun k hk => PatternSet.mem_members.2 (hsub k (PatternSet.mem_members.1 hk))) hcard
    have : Q = P := PatternSet.ext_mem fun k => by
      rw [← PatternSet.mem_members, hmem, PatternSet.mem_members]
    exact this ▸ hQ
  | succ n ih =>
    intro Q hQ hsub hn
    by_cases hall : ∀ j ∈ P, j ∈ Q
    · have : Q = P := PatternSet.ext_mem fun k => ⟨hsub k, hall k⟩
      exact this ▸ hQ
    · push Not at hall
      obtain ⟨j, hj, hjQ⟩ := hall
      obtain ⟨k, hk, l, hl, hlQ, hkl⟩ := h.exists_linked hsub hQ.mem_seed hj hjQ
      have hsize : (Q ∪ .single l).size = Q.size + 1 := by
        rw [PatternSet.size_union, ← PatternSet.card_members (s := .single l),
          PatternSet.members_single, Finset.card_singleton]
        exact PatternSet.disjoint_iff.2 fun m hm hl' => hlQ (PatternSet.mem_single.1 hl' ▸ hm)
      refine ih _ (.grow hQ hlQ ⟨k, hk, hkl⟩) (fun m hm => ?_) (by omega)
      rcases PatternSet.mem_union.1 hm with hm | hm
      · exact hsub m hm
      · rw [PatternSet.mem_single.1 hm]
        exact hl

/-! ### Connected sets -/

theorem connected_single (hi : i < g.length) : g.Connected (.single i) where
  nonempty := ⟨i, by simp⟩
  inRange k hk := by rwa [PatternSet.mem_single.1 hk]
  reachable k hk l hl := by rw [PatternSet.mem_single.1 hk, PatternSet.mem_single.1 hl]

/-- Paths inside a set are paths inside any larger set. -/
theorem Connected.reachable_of_subset (hP : g.Connected P) (hsub : ∀ k ∈ P, k ∈ Q) (hi : i ∈ P)
    (hj : j ∈ P) : ReflTransGen (fun k l => l ∈ Q ∧ g.Linked k l) i j :=
  ReflTransGen.mono (fun _ _ h => ⟨hsub _ h.1, h.2⟩) _ _ (hP.reachable i hi j hj)

/-- Two connected sets with a link from one to the other are connected together. -/
theorem Connected.union (hP : g.Connected P) (hQ : g.Connected Q) (hi : i ∈ P) (hj : j ∈ Q)
    (hij : g.Linked i j) : g.Connected (P ∪ Q) where
  nonempty := ⟨i, by simp [hi]⟩
  inRange k hk := by
    rcases PatternSet.mem_union.1 hk with hk | hk
    · exact hP.inRange k hk
    · exact hQ.inRange k hk
  reachable := by
    have inl : ∀ k ∈ P, k ∈ P ∪ Q := fun k hk => PatternSet.mem_union.2 (.inl hk)
    have inr : ∀ k ∈ Q, k ∈ P ∪ Q := fun k hk => PatternSet.mem_union.2 (.inr hk)
    have across : ReflTransGen (fun k l => l ∈ P ∪ Q ∧ g.Linked k l) i j :=
      .single ⟨inr j hj, hij⟩
    have back : ReflTransGen (fun k l => l ∈ P ∪ Q ∧ g.Linked k l) j i :=
      .single ⟨inl i hi, hij.symm⟩
    intro k hk l hl
    rcases PatternSet.mem_union.1 hk with hk | hk <;> rcases PatternSet.mem_union.1 hl with hl | hl
    · exact hP.reachable_of_subset inl hk hl
    · exact (hP.reachable_of_subset inl hk hi).trans
        (across.trans (hQ.reachable_of_subset inr hj hl))
    · exact (hQ.reachable_of_subset inr hk hj).trans
        (back.trans (hP.reachable_of_subset inl hi hl))
    · exact hQ.reachable_of_subset inr hk hl

/-- What has been built up from a pattern is connected. -/
theorem Grown.connected (h : g.Grown i P) (hi : i < g.length) : g.Connected P := by
  induction h with
  | seed => exact connected_single hi
  | grow _ _ hlinked ih =>
    obtain ⟨k, hk, hkj⟩ := hlinked
    exact ih.union (connected_single hkj.lt_right) hk (PatternSet.mem_single.2 rfl) hkj

end GraphPattern

end StandingQuery
