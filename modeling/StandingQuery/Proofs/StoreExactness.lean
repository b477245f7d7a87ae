import Mathlib.Order.Bounds.Basic
import StandingQuery.Proofs.History

/-! What the symmetric join stores.

Of what is stored for a query that is registered and active, the part that is still
valid is determined by the tuples added since its registration: all bindings of
connected parts of the query that can be put together from matches that are still
valid, each with the earliest expiration of its matches (`store_exact`). A match has
the latest expiration of a tuple that gives it (`GraphPattern.latest`). -/
namespace StandingQuery

namespace GraphPattern

variable {g : GraphPattern} {L : Book} {P : PatternSet} {b : Binding} {e : Expiration}

/-- A binding with its life is a choice of matches, the first to end giving the end. -/
theorem fits_and_joinLife_iff (hL : ∀ i m, L i m ≠ ⊥ → g.Fits (.single i) m) :
    g.Fits P b ∧ g.joinLife L P b = e ↔
      g.Connected P ∧ ∃ ms, Merges P.indices ms b ∧ IsLeast {l | ∃ i ∈ P, L i (ms i) = l} (e : Life) := by
  constructor
  · intro ⟨hb, he⟩
    refine ⟨hb.connected, g.portion b, hb.merges fun _ => PatternSet.mem_indices, ?_, ?_⟩
    · obtain ⟨i, hi⟩ := hb.connected.nonempty
      obtain ⟨j, hj, hlife⟩ := exists_joinLife_eq (g := g) (L := L) (b := b) hi
      exact ⟨j, hj, hlife.symm.trans he⟩
    · intro l ⟨i, hi, hl⟩
      rw [← hl, ← he]
      exact joinLife_le hi
  · intro ⟨hP, ms, hms, ⟨j, hj, hlife⟩, hleast⟩
    -- What ends at `e` or later is there, and so is a match.
    have hmatch : ∀ i ∈ P, g.Fits (.single i) (ms i) := by
      intro i hi
      refine hL i (ms i) fun hbot => ?_
      have hle : (e : Life) ≤ L i (ms i) := hleast ⟨i, hi, rfl⟩
      rw [hbot] at hle
      exact WithBot.coe_ne_bot (le_bot_iff.1 hle)
    have hdom : ∀ i ∈ P.indices, ∀ v, v ∈ ms i ↔ v ∈ g.varsAt i := fun i hi =>
      (fits_single_iff.1 (hmatch i (PatternSet.mem_indices.1 hi))).2
    have hb := hms.fits hdom hP fun _ => PatternSet.mem_indices
    have hportion : ∀ i ∈ P, g.portion b i = ms i := fun i hi =>
      hms.portion hdom (PatternSet.mem_indices.2 hi)
    refine ⟨hb, le_antisymm ?_ ?_⟩
    · rw [← hlife, ← hportion j hj]
      exact joinLife_le hj
    · obtain ⟨i, hi, hi'⟩ := exists_joinLife_eq (g := g) (L := L) (b := b) hj
      rw [hi', hportion i hi]
      exact hleast ⟨i, hi, rfl⟩

/-- Only matches have a life. -/
theorem fits_of_latest {arrivals : List Arrival} {i : Nat} {m : Binding}
    (h : g.latest arrivals i m ≠ ⊥) : g.Fits (.single i) m := by
  unfold latest at h
  rw [ne_eq, List.maximum_eq_bot, List.map_eq_nil_iff, List.filter_eq_nil_iff] at h
  push Not at h
  obtain ⟨a, -, ha⟩ := h
  obtain ⟨p, hp, hm⟩ := Option.bind_eq_some_iff.1 (of_decide_eq_true ha)
  exact fits_of_match? hp hm

end GraphPattern

namespace QueryIndex
open JoinState Watched GraphPattern

variable {x : QueryIndex} {id : QueryId} {query : Query} {L : Book} {now : Nat}
variable {P : PatternSet} {b : Binding} {e : Expiration}

/-- What is still valid of what is stored for a query that is followed is as the book says. -/
theorem Follows.held_iff (h : x.Follows (.upTo now) id query L) (hc : x.Consistent [])
    (hkeeps : x.joins.Keeps P) (he : .instant now < e) :
    (∃ n, x.joins.held n = some ⟨id, P, b, e⟩) ↔
      query.pattern.Fits P b ∧ query.pattern.joinLife L P b = e := by
  obtain ⟨q, hq, rfl⟩ := asked?_eq_some.1 h.asked
  have hlate : Life.upTo now < (e : Life) := WithBot.coe_lt_coe.2 he
  rw [exists_held_iff hc.joins]
  show x.joins.life ⟨id, P, b⟩ = e ↔ _
  constructor
  · intro hlife
    have hb : q.asked.pattern.Fits P b := by
      by_contra hb
      rw [life_eq_bot_of_not_fits hc.joins (hc.fitting hq) hb] at hlife
      exact WithBot.bot_ne_coe hlife
    refine ⟨hb, ?_⟩
    rw [← hlife] at hlate ⊢
    exact Life.eq_of_sup_eq (h.faithful P b hb hkeeps).symm hlate
  · intro ⟨hb, hlife⟩
    rw [← hlife] at hlate ⊢
    exact Life.eq_of_sup_eq (h.faithful P b hb hkeeps) hlate

/-- After any run of an index with the symmetric join, what is still valid of what is stored
for a query that is registered and active are the bindings of its connected parts that
merge compatible matches, each valid as long as the tuples added since the registration
make all of its matches valid. -/
theorem store_exact {c : Config} (hc : c.joinStrategy = .symmetric) {ops : List (Nat × Operation)}
    (hsorted : (ops.map Prod.fst).Pairwise (· ≤ ·)) {now : Nat} (hnow : ∀ o ∈ ops, o.1 ≤ now) :
    ∃ store, ((Watched.new c).run ops).2.index.joins = .symmetric store ∧
      ∀ id q, ((Watched.new c).run ops).2.index.registry.get? id = some q →
        id ∈ ((Watched.new c).run ops).2.index.active →
        ∀ P b e, .instant now < e →
          ((∃ n, store.get? n = some ⟨id, P, b, e⟩) ↔
            q.pattern.Connected P ∧ ∃ ms, Merges P.indices ms b ∧
              IsLeast {l | ∃ i ∈ P, q.pattern.latest
                (arrivals (since id ((Watched.new c).events ops))) i (ms i) = l} (e : Life)) := by
  have hrun := history_run (Watched.new c) ops
  have hconsistent := hrun.consistent (consistent_new c)
  have hstrategy := hrun.strategy.trans hc
  obtain ⟨store, hstore⟩ := exists_store hstrategy
  refine ⟨store, hstore, fun id q hq hactive P b e he => ?_⟩
  have hserving := serving_run hsorted hnow (asked?_eq_some.2 ⟨q, hq, rfl⟩)
  have hfollows := hserving.follows hactive
  rw [ofHits_flatMap] at hfollows
  have hkeeps : ((Watched.new c).run ops).2.index.joins.Keeps P := by
    intro hs
    rw [hstrategy] at hs
    cases hs
  have hheld := hfollows.held_iff (b := b) hconsistent hkeeps he
  rw [hstore] at hheld
  exact hheld.trans (fits_and_joinLife_iff fun i m => fits_of_latest)

/-- The two edges that a loop matches live as long as its later copy. -/
theorem store_exact_loop : ∃ ms, Merges (PatternSet.full 2).indices ms allAtX ∧
    IsLeast {l | ∃ i ∈ PatternSet.full 2, twoEdges.latest
      (arrivals (since 1 ((Watched.new {}).events (looping 1 2)))) i (ms i) = l}
      (Expiration.instant 2000 : Life) := by
  have hsorted : ((looping 1 2).map Prod.fst).Pairwise (· ≤ ·) := by decide
  have hnow : ∀ o ∈ looping 1 2, o.1 ≤ 0 := by decide
  have hheld : ((Watched.new {}).run (looping 1 2)).2.index.joins.held 2 =
      some ⟨1, .full 2, allAtX, .instant 2000⟩ := by decide +kernel
  have hactive : 1 ∈ ((Watched.new {}).run (looping 1 2)).2.index.active := by decide +kernel
  obtain ⟨store, hstore, hexact⟩ := store_exact (c := {}) rfl hsorted hnow
  rw [hstore] at hheld
  exact ((hexact 1 _ rfl hactive _ _ _ (by decide)).1 ⟨2, hheld⟩).2

end QueryIndex

end StandingQuery
