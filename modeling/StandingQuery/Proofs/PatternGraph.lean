import Mathlib.Combinatorics.SimpleGraph.Connectivity.Connected
import Mathlib.Data.List.Sort
import StandingQuery.Proofs.Analysis

/-! The graph of a query's patterns.

Seen as a graph, a query has its patterns for vertices and an edge wherever two of them
share a variable. It is accepted exactly if it has patterns, not too many of them, and
this graph is connected. One that falls apart is refused with the patterns that no path
leads to from the first. The analysis of an accepted query has the graph's neighbours,
and from every pattern an order that visits each of the others once, next to the start or
to one visited before (`analysed_exactly`). -/
open Relation (ReflTransGen)

namespace StandingQuery

/-- Every entry of a chain has a neighbour where the chain starts or earlier in it. -/
theorem Chained.exists_neighbour {N : Nat → PatternSet} {V : PatternSet} {earlier later : List Nat}
    {j : Nat} (h : Chained N V (earlier ++ j :: later)) : ∃ k, (k ∈ V ∨ k ∈ earlier) ∧ j ∈ N k := by
  induction earlier generalizing V with
  | nil =>
    obtain _ | ⟨-, ⟨k, hk, hjk⟩, -⟩ := h
    exact ⟨k, .inl hk, hjk⟩
  | cons i earlier ih =>
    obtain _ | ⟨-, -, hrest⟩ := h
    obtain ⟨k, hk, hjk⟩ := ih hrest
    refine ⟨k, ?_, hjk⟩
    rw [PatternSet.mem_union, PatternSet.mem_single] at hk
    rw [List.mem_cons, ← or_assoc]
    exact hk

namespace GraphPattern

variable {g : GraphPattern} {a : Analysis}

/-- The patterns of a query, with an edge wherever two of them share a variable. -/
def graph (g : GraphPattern) : SimpleGraph (Fin g.length) where
  Adj i j := g.Linked i j
  symm := ⟨fun _ _ h => h.symm⟩
  loopless := ⟨fun _ h => h.1 rfl⟩

theorem reachable_iff {i j : Fin g.length} : g.graph.Reachable i j ↔ ReflTransGen g.Linked i j := by
  rw [SimpleGraph.reachable_iff_reflTransGen]
  constructor
  · exact fun h => ReflTransGen.lift (p := g.Linked) Fin.val (fun _ _ h => h) _ _ h
  · intro h
    -- A path of links stays among the patterns.
    suffices ∀ k, ReflTransGen g.Linked i k →
        ∃ hk : k < g.length, ReflTransGen g.graph.Adj i ⟨k, hk⟩ from (this j h).2
    intro k hpath
    induction hpath with
    | refl => exact ⟨i.isLt, .refl⟩
    | tail _ hkl ih =>
      obtain ⟨_, hpath⟩ := ih
      exact ⟨hkl.lt_right, hpath.tail hkl⟩

theorem connected_iff : g.graph.Connected ↔ 0 < g.length ∧ g.OnePiece := by
  constructor
  · intro h
    obtain ⟨i⟩ := h.nonempty
    exact ⟨i.pos, fun j hj k hk => reachable_iff.1 (h.preconnected ⟨j, hj⟩ ⟨k, hk⟩)⟩
  · intro ⟨hpos, h⟩
    exact { preconnected := fun j k => reachable_iff.2 (h j j.isLt k k.isLt), nonempty := ⟨⟨0, hpos⟩⟩ }

/-- The patterns that are not reached, as vertices of the graph. -/
theorem exists_apart (hpos : 0 < g.length) : ∃ apart : List (Fin g.length),
    apart.Pairwise (· < ·) ∧ (∀ i, i ∈ apart ↔ ¬ g.graph.Reachable ⟨0, hpos⟩ i) ∧
      g.unreached.filterMap (g[·]?) = apart.map g.get := by
  have hrange : (List.finRange g.length).map Fin.val = List.range g.length :=
    List.ext_getElem (by simp) (by simp)
  obtain ⟨p, hp⟩ : ∃ p : Nat → Bool, g.unreached = (List.range g.length).filter p := ⟨_, rfl⟩
  refine ⟨(List.finRange g.length).filter (p ∘ Fin.val),
    (List.sortedLT_finRange g.length).pairwise.filter _, fun i => ?_, ?_⟩
  · have hi : i.val ∈ g.unreached ↔ p i.val = true := by
      rw [hp, List.mem_filter, List.mem_range, and_iff_right i.isLt]
    rw [reachable_iff, List.mem_filter, and_iff_right (List.mem_finRange i), Function.comp_apply,
      ← hi, mem_unreached hpos, and_iff_right i.isLt]
  · rw [hp, ← hrange, List.filter_map, List.filterMap_map, ← List.filterMap_eq_map]
    refine List.filterMap_congr fun i _ => ?_
    rw [Function.comp_apply, List.getElem?_eq_getElem i.isLt]
    rfl

/-- A graph pattern is accepted exactly if it has patterns, at most 64 of them, and its graph is
connected. If the graph is not connected, the patterns that no path leads to from the first are
reported, in order. The join orders of an accepted one visit each of the other patterns once, next
to the start or to one visited before, and the neighbours of some patterns are those that share
a variable with another one of them. -/
theorem analysed_exactly (g : GraphPattern) :
    ((∃ a, g.analyse = .ok a) ↔ 1 ≤ g.length ∧ g.length ≤ 64 ∧ g.graph.Connected) ∧
      (∀ hpos : 1 ≤ g.length, g.length ≤ 64 → ¬ g.graph.Connected →
        ∃ apart : List (Fin g.length), apart.Pairwise (· < ·) ∧
          (∀ i, i ∈ apart ↔ ¬ g.graph.Reachable ⟨0, hpos⟩ i) ∧
          g.analyse = .error (.incompatibleQuery (.disconnected (apart.map g.get)))) ∧
      ∀ a, g.analyse = .ok a →
        (∀ i < g.length, (a.joinOrder i).Perm ((List.range g.length).erase i) ∧
          ∀ earlier j later, a.joinOrder i = earlier ++ j :: later →
            ∃ k, (k = i ∨ k ∈ earlier) ∧ g.Linked k j) ∧
        ∀ P j, j ∈ a.neighbours P ↔ ∃ i ∈ P, g.Linked i j := by
  refine ⟨?_, fun hpos hcap hparts => ?_, fun a ha => ?_⟩
  · rw [connected_iff]
    constructor
    · rintro ⟨a, ha⟩
      obtain ⟨hpos, hcap, -, hpiece⟩ := analyse_eq_ok_iff.1 ha
      exact ⟨hpos, hcap, hpos, hpiece⟩
    · rintro ⟨hpos, hcap, -, hpiece⟩
      exact ⟨_, analyse_eq_ok_iff.2 ⟨hpos, hcap, rfl, hpiece⟩⟩
  · obtain ⟨apart, hsorted, hmem, hreported⟩ := exists_apart hpos
    refine ⟨apart, hsorted, hmem, ?_⟩
    have hpiece : ¬ g.OnePiece := fun h => hparts (connected_iff.2 ⟨hpos, h⟩)
    rw [analyse_eq hpos hcap, if_neg (mt (unreached_isEmpty_iff hpos).1 hpiece), hreported]
  · obtain ⟨-, -, rfl, hpiece⟩ := analyse_eq_ok_iff.1 ha
    refine ⟨fun i hi => ⟨?_, fun earlier j later horder => ?_⟩, fun P j => Analysis.mem_neighbours⟩
    · have hnodup := (Analysis.chained_joinOrder hi).nodup.1
      refine (List.perm_ext_iff_of_nodup hnodup (List.nodup_range.erase i)).2 fun j => ?_
      rw [mem_joinOrder hpiece hi, List.nodup_range.mem_erase_iff, List.mem_range, and_comm]
    · have hchain := Analysis.chained_joinOrder hi
      rw [horder] at hchain
      obtain ⟨k, hk, hkj⟩ := hchain.exists_neighbour
      exact ⟨k, hk.imp_left PatternSet.mem_single.1, Analysis.mem_linksOf.1 hkj⟩

/-- The second of three patterns shares no variable with the others. It is reported, and it is the
one that no path leads to. -/
theorem analysed_exactly_twoPieces :
    let g : GraphPattern := [⟨[.var ⟨"a"⟩, .const ⟨"p"⟩, .var ⟨"b"⟩]⟩,
      ⟨[.var ⟨"c"⟩, .const ⟨"p"⟩, .var ⟨"d"⟩]⟩, ⟨[.var ⟨"b"⟩, .const ⟨"p"⟩, .var ⟨"e"⟩]⟩]
    (∀ i : Fin 3, ¬ g.graph.Reachable 0 i ↔ i = 1) ∧
      g.analyse = .error (.incompatibleQuery (.disconnected
        [⟨[.var ⟨"c"⟩, .const ⟨"p"⟩, .var ⟨"d"⟩]⟩])) := by
  intro g
  have hreported : g.analyse = .error (.incompatibleQuery (.disconnected
      [⟨[.var ⟨"c"⟩, .const ⟨"p"⟩, .var ⟨"d"⟩]⟩])) := by
    decide +kernel
  obtain ⟨haccepted, hapart, -⟩ := analysed_exactly g
  have hparts : ¬ g.graph.Connected := by
    intro hconnected
    obtain ⟨a, ha⟩ := haccepted.2 ⟨by decide, by decide, hconnected⟩
    rw [hreported] at ha
    cases ha
  obtain ⟨apart, -, hmem, hfound⟩ := hapart (by decide) (by decide) hparts
  rw [hreported] at hfound
  have hsecond : ∀ i : Fin 3, g.get i = ⟨[.var ⟨"c"⟩, .const ⟨"p"⟩, .var ⟨"d"⟩]⟩ → i = 1 := by
    decide
  simp only [Except.error.injEq, Error.incompatibleQuery.injEq, Unsupported.disconnected.injEq] at hfound
  obtain ⟨k, rfl, hk⟩ := List.map_eq_singleton_iff.1 hfound.symm
  refine ⟨fun i => ?_, hreported⟩
  rw [← hsecond k hk, ← List.mem_singleton]
  exact (hmem i).symm

end GraphPattern

end StandingQuery
