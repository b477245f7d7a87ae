import StandingQuery.Proofs.StoreHistory

/-! Looking partners up.

What a partial solution can be joined with could be found by looking at all that is stored for
its query (`scan`). The symmetric join looks it up, for each set of patterns that something is stored
for, by the term of one variable that both sides have. What agrees on every variable that both
sides bind agrees on that one, and a partial solution binds the variables of all its patterns, so
nothing is missed; and what is found for different sets is different, so nothing comes twice
(`partners_scan`). -/
namespace StandingQuery
open Std

namespace GraphPattern

instance (g : GraphPattern) (i j : Nat) : Decidable (g.Linked i j) :=
  inferInstanceAs (Decidable (i ≠ j ∧ ∃ v ∈ g.varsAt i, v ∈ g.varsAt j))

instance (g : GraphPattern) (P : PatternSet) (b : Binding) : Decidable (g.Binds P b) :=
  decidable_of_iff ((∀ v ∈ b.keys, v ∈ g.varsIn P) ∧ ∀ v ∈ g.varsIn P, v ∈ b) <| by
    simp only [ExtTreeMap.mem_keys, mem_varsIn]
    exact ⟨fun h v => ⟨h.1 v, h.2 v⟩, fun h => ⟨fun v => (h v).1, fun v => (h v).2⟩⟩

end GraphPattern

namespace SolutionStore
open PartialSolution PartialStore

variable {s : SolutionStore} {g : GraphPattern} {now : Nat} {p q : PartialSolution PatternSet}

instance (g : GraphPattern) (now : Nat) (p q : PartialSolution PatternSet) :
    Decidable (Partner g now p q) :=
  decidable_of_iff (q.query = p.query ∧ (∀ i ∈ q.part.indices, i ∉ p.part) ∧
      (∃ i ∈ p.part.indices, ∃ j ∈ q.part.indices, g.Linked i j) ∧
      p.binding.compatible q.binding = true ∧ .instant now < q.expiration) <| by
    simp only [PatternSet.mem_indices]
    exact ⟨fun h => ⟨h.1, h.2.1, h.2.2.1, h.2.2.2.1, h.2.2.2.2⟩,
      fun h => ⟨h.query, h.disjoint, h.linked, h.compatible, h.alive⟩⟩

/-- What is stored for the query of `p` and can be joined with it, found by looking at all of it. -/
def scan (g : GraphPattern) (s : SolutionStore) (p : PartialSolution PatternSet) (now : Nat) :
    List (PartialSolution PatternSet) :=
  (s.contentsOf p.query).filter fun q => Partner g now p q

theorem mem_scan : q ∈ scan g s p now ↔ (∃ n, s.get? n = some q) ∧ Partner g now p q := by
  unfold scan
  rw [List.mem_filter, mem_contentsOf, decide_eq_true_eq, and_assoc]
  exact and_congr_right fun _ => and_iff_right_of_imp Partner.query

theorem nodup_scan (h : s.Sound) : (scan g s p now).Nodup := (nodup_contentsOf h.toSound).filter _

theorem nodup_partnersOver (h : s.Sound) (a : Analysis) (part : PatternSet) :
    (partnersOver s p a now part).Nodup := by
  unfold partnersOver
  split
  · split
    · exact List.nodup_nil
    · split
      · exact List.nodup_nil
      · exact (nodup_probe h.toSound).filter _
  · exact List.nodup_nil

theorem nodup_partners (h : s.Sound) (a : Analysis) : (partners s p a now).Nodup := by
  unfold partners
  rw [List.nodup_flatMap]
  refine ⟨fun part _ => nodup_partnersOver h a part, ExtTreeMap.distinct_keys.imp ?_⟩
  intro part part' hne q hq hq'
  refine hne ?_
  rw [← (of_mem_partnersOver h hq).1, ← (of_mem_partnersOver h hq').1]
  exact ReflOrd.compare_self

/-- Whatever has been done to a store, if the partial solutions in it bind the variables of their
patterns, then what is looked up for one of them is what looking at all of them finds: those for the
same query that have not expired, that are for other patterns, one of which shares a variable with
one of its own, and that are compatible; each of them once. Sets of patterns that have none in common
are adjacent exactly if there is a variable to look up, and both sides bind it. -/
theorem partners_scan {query : Query} {arity : Nat} {a : Analysis}
    (ha : query.validate arity = .ok a) (ops : List (Operation PatternSet))
    (hcover : Covering (run ops) p.query query.pattern)
    (hp : query.pattern.Binds p.part p.binding) (now : Nat) :
    (partners (run ops) p a now).Perm (scan query.pattern (run ops) p now) ∧
      (partners (run ops) p a now).Nodup ∧
      (∀ P Q : PatternSet, P.disjoint Q = true →
        (a.adjacent P Q = true ↔ (a.sharedVariable P Q).isSome = true)) ∧
      ∀ n q v, (run ops).get? n = some q → q.query = p.query →
        a.sharedVariable p.part q.part = some v → v ∈ p.binding ∧ v ∈ q.binding := by
  obtain ⟨-, -, rfl, -⟩ := GraphPattern.analyse_eq_ok_iff.1 (Query.validate_eq_ok ha).1
  have hsound := sound_run ops
  have hnodup : (partners (run ops) p (.ofPattern query.pattern) now).Nodup :=
    nodup_partners hsound _
  refine ⟨?_, hnodup, fun P Q => Analysis.adjacent_iff_sharedVariable, fun n q v hn hq hv => ?_⟩
  · refine (List.perm_ext_iff_of_nodup hnodup (nodup_scan hsound)).2 fun q => ?_
    rw [mem_partners hsound hcover hp, mem_scan]
  · obtain ⟨hleft, hright⟩ := Analysis.sharedVariable_eq_some hv
    exact ⟨(hp v).2 hleft, (hcover n q hn hq v).2 hright⟩

/-- Three edges in a row. -/
def path : GraphPattern := [⟨[.var ⟨"a"⟩, .const ⟨"p"⟩, .var ⟨"b"⟩]⟩,
  ⟨[.var ⟨"b"⟩, .const ⟨"p"⟩, .var ⟨"c"⟩]⟩, ⟨[.var ⟨"c"⟩, .const ⟨"p"⟩, .var ⟨"d"⟩]⟩]

/-- A match of one edge of the row. -/
def hop (i : Nat) (source target : String) (e : Expiration) : PartialSolution PatternSet :=
  .ofPattern 1 i ((path[i]?.bind (·.match? ⟨[⟨source⟩, ⟨"p"⟩, ⟨target⟩]⟩)).getD ∅) e

/-- A third edge is joined with the second edge that leads to it, and with that and the first one
together. The first edge alone shares nothing with it, another second edge leads elsewhere, and
another first edge has expired. -/
theorem partners_scan_path :
    let s := run ([hop 0 "x" "y" .never, hop 0 "v" "y" (.instant 500),
      hop 1 "y" "z" (.instant 5000), hop 1 "y" "w" .never].map fun p =>
        .join {} p (.ofPattern path) 0)
    s.size = 8 ∧ (partners s (hop 2 "z" "u" .never) (.ofPattern path) 1000).Perm
      [hop 1 "y" "z" (.instant 5000),
        (hop 1 "y" "z" (.instant 5000)).join (hop 0 "x" "y" .never)] := by
  intro s
  have ha : (⟨path, {}⟩ : Query).validate 3 = .ok (.ofPattern path) := by decide +kernel
  have hbound : ∀ q ∈ s.contentsOf 1, path.Binds q.part q.binding := by decide +kernel
  have hcover : Covering s 1 path := fun n q hn hq => hbound q (mem_contentsOf.2 ⟨⟨n, hn⟩, hq⟩)
  obtain ⟨hperm, -⟩ := partners_scan (p := hop 2 "z" "u" .never) ha _ hcover (by decide +kernel) 1000
  exact ⟨by decide +kernel, hperm.trans (.of_eq (by decide +kernel))⟩

end SolutionStore

end StandingQuery
