import Mathlib.Data.Set.Card
import StandingQuery.Proofs.Reachability
import StandingQuery.Proofs.Eviction

/-! What an eviction reports.

What is due comes out in one order (`Expirations.ordered_due`), and everything in it once. A query
takes along what is stored for it, so that something stored is counted only if its own turn comes
before its query's. With that, an eviction is said in full by what was there before it
(`removeExpired_exact`). -/
namespace StandingQuery

namespace QueryIndex
open JoinState

variable {x : QueryIndex} {id : QueryId} {now : Nat} {due : List Mortal} {n : SolutionId}
variable {s : EvictionReport × QueryIndex} {p : PartialSolution PatternSet} {q : Registered}

/-! ### Counting what is found -/

/-- The registered queries whose turn comes. -/
def queriesDue (x : QueryIndex) (due : List Mortal) : Set QueryId :=
  {id | .query id ∈ due ∧ (x.registry.get? id).isSome}

/-- What is stored and has its turn before its query has. -/
def solutionsDue (x : QueryIndex) (due : List Mortal) : Set SolutionId :=
  {n | ∃ p, x.joins.held n = some p ∧ .solution n ∈ due ∧ ¬ [.query p.query, .solution n].Sublist due}

theorem queriesDue_cons_solution :
    s.2.queriesDue (.solution n :: due) = (evict s (.solution n)).2.queriesDue due := by
  ext id
  show _ ∧ _ ↔ _ ∧ _
  rw [get?_evict, if_neg (by simp), List.mem_cons, or_iff_right (by simp)]

theorem queriesDue_cons_query (hnew : .query id ∉ due) :
    s.2.queriesDue (.query id :: due) = {i | i = id ∧ (s.2.registry.get? id).isSome} ∪
      (evict s (.query id)).2.queriesDue due := by
  ext i
  show _ ∧ _ ↔ (_ ∧ _) ∨ _ ∧ _
  rw [get?_evict, List.mem_cons, Mortal.query.injEq]
  by_cases hi : i = id
  · subst hi
    simp [hnew]
  · simp [hi, Ne.symm hi]

/-- Each registered query is counted once. -/
theorem queries_foldl_evict (hnodup : due.Nodup) (s : EvictionReport × QueryIndex) :
    ((due.foldl evict s).1.queries : ℕ∞) = s.1.queries + (s.2.queriesDue due).encard := by
  induction due generalizing s with
  | nil => simp [queriesDue]
  | cons e due ih =>
    obtain ⟨hnew, hnodup⟩ := List.nodup_cons.1 hnodup
    rw [List.foldl_cons, ih hnodup]
    cases e with
    | solution n =>
      rw [queriesDue_cons_solution, report_evict_solution]
      split <;> rfl
    | query id =>
      have hapart : Disjoint {i | i = id ∧ (s.2.registry.get? id).isSome}
          ((evict s (.query id)).2.queriesDue due) :=
        Set.disjoint_left.2 fun i hi hdue => hnew (hi.1 ▸ hdue.1)
      rw [queriesDue_cons_query hnew, Set.encard_union_eq hapart, ← add_assoc, report_evict_query]
      congr 1
      cases s.2.registry.get? id <;> simp

/-- What comes up first is not behind anything else. -/
theorem pair_sublist_cons {e f g : Mortal} (h : e ≠ g) :
    [e, f].Sublist (g :: due) ↔ [e, f].Sublist due := by
  rw [List.sublist_cons_iff, or_iff_left]
  rintro ⟨r, hr, -⟩
  exact h (List.cons.inj hr).1

theorem solutionsDue_cons_query (hc : s.2.Consistent (.query id :: due)) :
    s.2.solutionsDue (.query id :: due) = (evict s (.query id)).2.solutionsDue due := by
  ext n
  refine exists_congr fun p => ?_
  rw [held_evict hc, List.mem_cons, or_iff_right (by simp)]
  by_cases hp : p.query = id
  · subst hp
    simp
  · rw [pair_sublist_cons (by simpa using hp)]
    simp [Ne.symm hp]

theorem solutionsDue_cons_solution (hc : s.2.Consistent (.solution n :: due))
    (hnew : .solution n ∉ due) :
    s.2.solutionsDue (.solution n :: due) = {m | m = n ∧ (s.2.joins.held n).isSome} ∪
      (evict s (.solution n)).2.solutionsDue due := by
  ext m
  show (∃ p, _) ↔ _ ∨ ∃ p, _
  have hpair : ∀ p : PartialSolution PatternSet, Mortal.query p.query ≠ .solution n := by simp
  simp only [held_evict hc, pair_sublist_cons (hpair _), List.mem_cons]
  by_cases hm : m = n
  · subst hm
    have hlast : ∀ p : PartialSolution PatternSet,
        ¬ [.query p.query, .solution m].Sublist due := fun p hsub => hnew (hsub.subset (by simp))
    simp [hlast, hnew, Option.isSome_iff_exists]
  · simp [hm, Ne.symm hm]

/-- What is stored is counted unless its query has been taken out before. -/
theorem solutions_foldl_evict (hc : s.2.Consistent due) (hnodup : due.Nodup) :
    ((due.foldl evict s).1.solutions : ℕ∞) = s.1.solutions + (s.2.solutionsDue due).encard := by
  induction due generalizing s with
  | nil => simp [solutionsDue]
  | cons e due ih =>
    obtain ⟨hnew, hnodup⟩ := List.nodup_cons.1 hnodup
    rw [List.foldl_cons, ih (consistent_evict hc) hnodup]
    cases e with
    | query id =>
      rw [solutionsDue_cons_query hc, report_evict_query]
      split <;> rfl
    | solution n =>
      have hapart : Disjoint {m | m = n ∧ (s.2.joins.held n).isSome}
          ((evict s (.solution n)).2.solutionsDue due) := by
        refine Set.disjoint_left.2 fun m hm hdue => ?_
        obtain ⟨p, -, hdue, -⟩ := hdue
        exact hnew (hm.1 ▸ hdue)
      rw [solutionsDue_cons_solution hc hnew, Set.encard_union_eq hapart, ← add_assoc,
        report_evict_solution]
      congr 1
      cases s.2.joins.held n <;> simp

/-! ### What an eviction comes to -/

/-- The index as an eviction starts on it: all that is due is struck out. -/
def struckOut (x : QueryIndex) (now : Nat) : QueryIndex :=
  { x with expirations := (x.expirations.removeExpired now).2 }

theorem removeExpired_eq (x : QueryIndex) (now : Nat) :
    x.removeExpired now = (x.expirations.due now).foldl evict ({}, x.struckOut now) := rfl

theorem report_queries (hc : x.Consistent []) (now : Nat) :
    ((x.removeExpired now).1.queries : ℕ∞) = (x.queriesDue (x.expirations.due now)).encard := by
  rw [removeExpired_eq, queries_foldl_evict (Expirations.nodup_due hc.expirations now)]
  exact zero_add _

theorem report_solutions (hc : x.Consistent []) (now : Nat) :
    ((x.removeExpired now).1.solutions : ℕ∞) = (x.solutionsDue (x.expirations.due now)).encard := by
  rw [removeExpired_eq, solutions_foldl_evict (s := ({}, x.struckOut now))
    (consistent_struck hc now) (Expirations.nodup_due hc.expirations now)]
  exact zero_add _

theorem mem_queriesDue (hc : x.Consistent []) :
    id ∈ x.queriesDue (x.expirations.due now) ↔
      (x.registry.get? id).isSome ∧ (x.removeExpired now).2.registry.get? id = none := by
  show _ ∧ _ ↔ _
  rw [and_comm]
  refine and_congr_right fun hid => ?_
  obtain ⟨q, hq⟩ := Option.isSome_iff_exists.1 hid
  rw [mem_due_query hc hq, get?_removeExpired hc, hq, Option.filter_some]
  simp

/-- A query is taken out before what is stored for it unless that has ended earlier. -/
theorem query_first_iff (hc : x.Consistent []) (hq : x.registry.get? p.query = some q)
    (hp : x.joins.held n = some p) (hdue : .solution n ∈ x.expirations.due now) :
    [.query p.query, .solution n].Sublist (x.expirations.due now) ↔
      q.expiration.expiredAt now ∧ q.expiration ≤ p.expiration := by
  rw [Expirations.sublist_due_iff hc.expirations, mem_due_query hc hq, and_iff_right hdue]
  refine and_congr_right fun hexpired => ?_
  obtain ⟨t, ht, -⟩ := (Expirations.mem_due hc.expirations).1 hdue
  obtain ⟨s, hs, -⟩ := (Expirations.mem_due hc.expirations).1 ((mem_due_query hc hq).2 hexpired)
  have hsolution : p.expiration = .instant t := by
    rwa [hc.trackedBy, hp, Option.bind_some, Expiration.millis?_eq_some_iff] at ht
  have hquery : q.expiration = .instant s := by
    rwa [hc.tracked_query, hq, Option.bind_some, Expiration.millis?_eq_some_iff] at hs
  have hkinds : compare (Mortal.query p.query) (.solution n) = .lt := rfl
  rw [hsolution, hquery, Expiration.instant_le_instant, Nat.le_iff_lt_or_eq]
  simp [Expirations.Before, hs, ht, hkinds]

theorem mem_solutionsDue (hc : x.Consistent []) :
    n ∈ x.solutionsDue (x.expirations.due now) ↔ ∃ p, x.joins.held n = some p ∧
      p.expiration ≤ .instant now ∧ (((x.removeExpired now).2.registry.get? p.query).isSome ∨
        ∃ q, x.registry.get? p.query = some q ∧ p.expiration < q.expiration) := by
  refine exists_congr fun p => and_congr_right fun hp => ?_
  obtain ⟨q, hq, -⟩ := hc.held n p hp
  rw [← Expiration.expiredAt_iff, ← mem_due_solution hc hp]
  refine and_congr_right fun hdue => ?_
  rw [query_first_iff hc hq hp hdue, get?_removeExpired hc, hq, Option.filter_some]
  by_cases hexpired : q.expiration.expiredAt now <;> simp [hexpired]

/-- After an eviction nothing is due any more. -/
theorem due_removeExpired (hc : x.Consistent []) {now' : Nat} (hle : now' ≤ now) :
    (x.removeExpired now).2.expirations.due now' = [] := by
  have hc' := consistent_removeExpired hc now
  refine List.eq_nil_iff_forall_not_mem.2 fun e he => ?_
  obtain ⟨t, ht, hdue⟩ := (Expirations.mem_due hc'.expirations).1 he
  have hpast : ∀ expiration : Expiration, expiration.millis? = some t →
      ¬ .instant now < expiration := by
    intro expiration hexpiration
    rw [Expiration.millis?_eq_some_iff.1 hexpiration, Expiration.instant_lt_instant]
    omega
  cases e with
  | query id =>
    rw [hc'.tracked_query, Option.bind_eq_some_iff] at ht
    obtain ⟨q, hq, hexpiration⟩ := ht
    rw [get?_removeExpired hc, Option.filter_eq_some_iff] at hq
    exact hpast _ hexpiration (Expiration.not_expiredAt_iff.1 (by simpa using hq.2))
  | solution n =>
    rw [hc'.trackedBy, Option.bind_eq_some_iff] at ht
    obtain ⟨p, hp, hexpiration⟩ := ht
    exact hpast _ hexpiration ((held_removeExpired hc).1 hp).2.1

/-- A second eviction that comes no later finds nothing to do. -/
theorem removeExpired_again (hc : x.Consistent []) {now' : Nat} (hle : now' ≤ now) :
    (x.removeExpired now).2.removeExpired now' = ({}, (x.removeExpired now).2) := by
  have hdue := due_removeExpired hc hle
  rw [removeExpired_eq, struckOut, hdue,
    Expirations.removeExpired_of_due (consistent_removeExpired hc now).expirations hdue]
  rfl

theorem mem_active_removeExpired_all (hc : x.Consistent []) :
    id ∈ (x.removeExpired now).2.active ↔
      id ∈ x.active ∧ ∀ q, x.registry.get? id = some q → .instant now < q.expiration := by
  cases hq : x.registry.get? id with
  | none =>
    rw [removeExpired_eq, mem_active_foldl_evict_of_none hq]
    simp [struckOut]
  | some q =>
    rw [mem_active_removeExpired hc hq, Expiration.not_expiredAt_iff]
    simp

/-- What has ended goes, and everything stored for the queries that go, and nothing else. What is
left is as it was; of what goes, the report leaves out what a query has taken along. A second
eviction that comes no later does nothing. -/
theorem removeExpired_exact {c : Config} (h : Reachable c x) (now : Nat) :
    let report := (x.removeExpired now).1
    let y := (x.removeExpired now).2
    (∀ id q, y.registry.get? id = some q ↔
        x.registry.get? id = some q ∧ .instant now < q.expiration) ∧
      (∀ n p, y.joins.held n = some p ↔ x.joins.held n = some p ∧
        .instant now < p.expiration ∧ (y.registry.get? p.query).isSome) ∧
      (∀ id, id ∈ y.active ↔
        id ∈ x.active ∧ ∀ q, x.registry.get? id = some q → .instant now < q.expiration) ∧
      {id | (x.registry.get? id).isSome ∧ y.registry.get? id = none}.encard = report.queries ∧
      {n | ∃ p, x.joins.held n = some p ∧ y.joins.held n = none ∧ p.expiration ≤ .instant now ∧
          ((y.registry.get? p.query).isSome ∨ ∃ q, x.registry.get? p.query = some q ∧
            p.expiration < q.expiration)}.encard = report.solutions ∧
      ∀ now' ≤ now, y.removeExpired now' = ({}, y) := by
  have hc := h.consistent
  refine ⟨fun id q => ?_, fun n p => held_removeExpired hc, fun id => mem_active_removeExpired_all hc,
    ?_, ?_, fun now' hle => removeExpired_again hc hle⟩
  · rw [get?_removeExpired hc, Option.filter_eq_some_iff, ← Expiration.not_expiredAt_iff]
    simp
  · rw [report_queries hc]
    congr 1
    ext id
    exact (mem_queriesDue hc).symm
  · rw [report_solutions hc]
    congr 1
    ext n
    rw [mem_solutionsDue hc]
    refine exists_congr fun p => and_congr_right fun hp => and_iff_right_of_imp fun hgone => ?_
    -- What has ended is not stored any more.
    refine Option.eq_none_iff_forall_ne_some.2 fun p' hp' => ?_
    obtain ⟨hsame, halive, -⟩ := (held_removeExpired hc).1 hp'
    obtain rfl := Option.some.inj (hp.symm.trans hsame)
    exact absurd halive (not_lt.2 hgone.1)

/-- Two queries ask for two edges in a row, one of them for two seconds; of three loops, the first
lasts one second, the second two and the third for ever. -/
def overtaking : List (Nat × Operation) :=
  [(0, .register 1 ⟨twoEdges, {}⟩ 2), (0, .register 2 ⟨twoEdges, {}⟩ 0), (0, .add loop 1),
    (0, .add ⟨[⟨"y"⟩, ⟨"p"⟩, ⟨"y"⟩]⟩ 2), (0, .add ⟨[⟨"z"⟩, ⟨"p"⟩, ⟨"z"⟩]⟩ 0)]

/-- After two seconds the first query takes along what the second and the third loop have left it.
Of the fifteen things that go, the report counts the query and the nine solutions that nothing
has overtaken. -/
theorem removeExpired_exact_overtaking :
    let x := ((Watched.new {}).run overtaking).2.index
    let y := (x.removeExpired 2000).2
    {id | (x.registry.get? id).isSome ∧ y.registry.get? id = none}.encard = 1 ∧
      {n | ∃ p, x.joins.held n = some p ∧ y.joins.held n = none ∧ p.expiration ≤ .instant 2000 ∧
          ((y.registry.get? p.query).isSome ∨ ∃ q, x.registry.get? p.query = some q ∧
            p.expiration < q.expiration)}.encard = 9 ∧
      x.joins.size = 18 ∧ y.joins.size = 3 ∧ y.removeExpired 1500 = ({}, y) := by
  intro x y
  have hreport : (x.removeExpired 2000).1 = ⟨1, 9⟩ := by decide +kernel
  obtain ⟨-, -, -, hqueries, hsolutions, hagain⟩ :=
    removeExpired_exact (Watched.reachable_run {} overtaking) 2000
  rw [show (((Watched.new {}).run overtaking).2.index.removeExpired 2000).1 = ⟨1, 9⟩ from hreport]
    at hqueries hsolutions
  exact ⟨hqueries, hsolutions, by decide +kernel, by decide +kernel, hagain 1500 (by omega)⟩

end QueryIndex

end StandingQuery
