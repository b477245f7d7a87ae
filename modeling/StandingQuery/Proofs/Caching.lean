import StandingQuery.Join.Caching
import StandingQuery.Proofs.Analysis
import StandingQuery.Proofs.Book
import StandingQuery.Proofs.Listings

/-! What the caching join finds.

A new match is extended pattern by pattern along a join order. Each pattern shares a
variable with what is bound already, so the matches that agree are found by a term,
and what comes out (`mem_extend`) is every binding of the patterns visited that
contains the one started from and whose other matches are cached and still valid. -/
namespace StandingQuery
open Std

namespace MatchCache
open PartialSolution PartialStore GraphPattern

variable {c : MatchCache} {g : GraphPattern} {query : QueryId} {now i : Nat}
variable {b b' : Binding} {e e' : Expiration} {m : PartialSolution Nat}

/-- The cached matches of a query are bindings of its patterns. -/
def Fitting (c : MatchCache) (query : QueryId) (g : GraphPattern) : Prop :=
  ∀ n m, c.get? n = some m → m.query = query → g.Fits (.single m.part) m.binding

/-! ### Candidates -/

theorem probeTerm?_of_mem {v : Variable} (hv : v ∈ g.varsAt i) (hb : v ∈ b) :
    ∃ w t, probeTerm? (.ofPattern g) i b = some (w, t) ∧ w ∈ g.varsAt i ∧ b[w]? = some t := by
  unfold probeTerm?
  rw [Analysis.varsOf_ofPattern]
  cases hfind : (g.varsAt i).findSome? fun v => b[v]?.map (v, ·) with
  | none =>
    obtain ⟨t, ht⟩ := Binding.mem_iff_lookup.1 hb
    have hnone := List.findSome?_eq_none_iff.1 hfind v hv
    rw [ht] at hnone
    cases hnone
  | some wt =>
    obtain ⟨w, hw, hwt⟩ := List.exists_of_findSome?_eq_some hfind
    obtain ⟨t, ht, rfl⟩ := Option.map_eq_some_iff.1 hwt
    exact ⟨w, t, rfl, hw, ht⟩

/-- The candidates for a pattern are its cached matches that are valid and agree with what is bound. -/
theorem mem_candidates (h : c.Sound) (hfit : c.Fitting query g) {v : Variable}
    (hv : v ∈ g.varsAt i) (hb : v ∈ b) :
    m ∈ candidates c (.ofPattern g) query now i b ↔ (∃ n, c.get? n = some m) ∧
      m.query = query ∧ m.part = i ∧ b.compatible m.binding = true ∧ .instant now < m.expiration := by
  obtain ⟨w, t, hprobe, hw, ht⟩ := probeTerm?_of_mem hv hb
  unfold candidates
  rw [hprobe]
  dsimp only
  rw [List.mem_filter, mem_probe h.toSound, mem_probes, Bool.and_eq_true, Bool.not_eq_true',
    Expiration.not_expiredAt_iff]
  constructor
  · intro ⟨⟨hheld, hq, hpart, _⟩, halive, hc⟩
    exact ⟨hheld, hq, hpart, Binding.compatible_symm hc, halive⟩
  · intro ⟨⟨n, hn⟩, hq, hpart, hc, halive⟩
    have hwm : w ∈ m.binding :=
      (hfit n m hn hq).varsAt_subset (PatternSet.mem_single.2 hpart.symm) w hw
    obtain ⟨t', ht'⟩ := Binding.mem_iff_lookup.1 hwm
    have htt := Binding.compatible_iff.1 hc w t t' ht ht'
    exact ⟨⟨⟨n, hn⟩, hq, hpart, by rw [ht', htt]⟩, halive, Binding.compatible_symm hc⟩

theorem nodup_candidates (h : c.Sound) (a : Analysis) :
    (candidates c a query now i b).Nodup := by
  unfold candidates
  split
  · exact List.nodup_nil
  · exact (nodup_probe h.toSound).filter _

/-! ### Extending along a join order -/

/-- How long the cached match of a pattern in a binding lives. -/
def portionLife (c : MatchCache) (g : GraphPattern) (query : QueryId) (b : Binding) (j : Nat) : Life :=
  c.life ⟨query, j, g.portion b j⟩

/-- What is bound after one more match, and how it is taken apart again. -/
theorem merge_eq_project_iff {V : PatternSet} {j : Nat} {n : Binding} (hb : Binds g V b)
    (hn : Binds g (.single j) n) (hc : b.compatible n = true) :
    b'.project (g.varsIn (V ∪ .single j)) = b.merge n ↔
      b'.project (g.varsIn V) = b ∧ g.portion b' j = n := by
  have hn' : ∀ v, v ∈ n ↔ v ∈ g.varsAt j := fun v => by rw [hn]; simp
  constructor
  · intro h
    constructor
    · have hV : b'.project (g.varsIn V) = (b.merge n).project (g.varsIn V) := by
        rw [← h, Binding.project_project_of_subset fun v hv => ?_]
        obtain ⟨i, hi, hvi⟩ := mem_varsIn.1 hv
        exact mem_varsIn.2 ⟨i, PatternSet.mem_union.2 (.inl hi), hvi⟩
      rw [hV, Binding.project_merge_left fun v hv => (hb v).2 (mem_varsIn.1 hv)]
      exact Binding.project_eq_self fun v hv => mem_varsIn.2 ((hb v).1 hv)
    · rw [← portion_project (P := V ∪ .single j) (by simp), h, portion,
        Binding.project_merge_right hc fun v hv => (hn' v).2 hv]
      exact Binding.project_eq_self fun v hv => (hn' v).1 hv
  · intro h
    obtain ⟨hV, hj⟩ := h
    rw [← hV, ← hj, portion, Binding.merge_project]
    refine Binding.ext_lookup fun v => ?_
    have hmem : v ∈ g.varsIn (V ∪ .single j) ↔ v ∈ g.varsIn V ++ g.varsAt j := by
      simp only [mem_varsIn, List.mem_append, PatternSet.mem_union, PatternSet.mem_single,
        or_and_right, exists_or, exists_eq_left]
    rw [Binding.lookup_project, Binding.lookup_project]
    simp only [hmem]

/-- What comes out of extending a binding: all bindings of the patterns visited that
contain it and whose other matches are cached and valid. -/
theorem mem_extend (h : c.Sound) (hfit : c.Fitting query g) {V : PatternSet} {order : List Nat}
    (horder : Chained (Analysis.linksOf g) V order) (hb : Binds g V b) :
    ⟨b', e'⟩ ∈ extend c (.ofPattern g) query now order b e ↔
      (∀ v, v ∈ b' ↔ ∃ i, (i ∈ V ∨ i ∈ order) ∧ v ∈ g.varsAt i) ∧ b'.project (g.varsIn V) = b ∧
        (∀ j ∈ order, .upTo now < portionLife c g query b' j) ∧
        (e' : Life) = (e : Life) ⊓ order.toFinset.inf (portionLife c g query b') := by
  induction horder generalizing b e with
  | nil =>
    simp only [extend, List.mem_singleton, Candidate.mk.injEq, List.not_mem_nil, or_false,
      List.toFinset_nil, Finset.inf_empty, inf_top_eq, WithBot.coe_inj, false_implies, true_and,
      implies_true]
    constructor
    · intro ⟨hb', he'⟩
      rw [hb', he']
      exact ⟨hb, Binding.project_eq_self fun v hv => mem_varsIn.2 ((hb v).1 hv), rfl⟩
    · intro ⟨hdom, hproject, he'⟩
      refine ⟨?_, he'⟩
      rw [← hproject]
      exact (Binding.project_eq_self fun v hv => mem_varsIn.2 ((hdom v).1 hv)).symm
  | @cons V j rest hj hlinked _ ih =>
    obtain ⟨i, hi, hij⟩ := hlinked
    obtain ⟨-, v, hvi, hvj⟩ := Analysis.mem_linksOf.1 hij
    have hvb : v ∈ b := (hb v).2 ⟨i, hi, hvi⟩
    have hpatterns : ∀ k, (k ∈ V ∪ .single j ∨ k ∈ rest) ↔ (k ∈ V ∨ k ∈ j :: rest) := by
      intro k
      rw [PatternSet.mem_union, PatternSet.mem_single, List.mem_cons, or_assoc]
    rw [extend, List.mem_flatMap]
    constructor
    · intro ⟨m, hm, hmem⟩
      obtain ⟨⟨n, hn⟩, hq, hpart, hc, halive⟩ := (mem_candidates h hfit hvj hvb).1 hm
      have hmb : Binds g (.single j) m.binding := hpart ▸ (hfit n m hn hq).domain
      obtain ⟨hdom, hproject, hlives, hexp⟩ := (ih (hb.merge hmb)).1 hmem
      obtain ⟨hV, hportion⟩ := (merge_eq_project_iff hb hmb hc).1 hproject
      have hlife : portionLife c g query b' j = m.expiration := by
        rw [portionLife, hportion, ← hq, ← hpart]
        exact life_eq_of_get? h.toSound hn
      simp only [hpatterns] at hdom
      refine ⟨hdom, hV, fun k hk => ?_, ?_⟩
      · rcases List.mem_cons.1 hk with rfl | hk
        · rw [hlife]
          exact WithBot.coe_lt_coe.2 halive
        · exact hlives k hk
      · rw [hexp, List.toFinset_cons, Finset.inf_insert, hlife, WithBot.coe_min, inf_assoc]
    · intro ⟨hdom, hproject, hlives, hexp⟩
      have hlong := hlives j List.mem_cons_self
      obtain ⟨f, hf⟩ := WithBot.ne_bot_iff_exists.1 (bot_lt_of_lt hlong).ne'
      obtain ⟨n, m, hn, hkey, hmf⟩ := (life_eq_coe_iff h.toSound).1 hf.symm
      have hq : m.query = query := congrArg Key.query hkey
      have hpart : m.part = j := congrArg Key.part hkey
      have hbinding : m.binding = g.portion b' j := congrArg Key.binding hkey
      have hmb : Binds g (.single j) m.binding := hpart ▸ (hfit n m hn hq).domain
      have hc : b.compatible m.binding = true := by
        rw [hbinding, ← hproject]
        exact Binding.compatible_project b' _ _
      have halive : .instant now < m.expiration := by
        rw [← hf, ← hmf] at hlong
        exact WithBot.coe_lt_coe.1 hlong
      refine ⟨m, (mem_candidates h hfit hvj hvb).2 ⟨⟨n, hn⟩, hq, hpart, hc, halive⟩, ?_⟩
      refine (ih (hb.merge hmb)).2 ⟨?_, ?_, fun k hk => hlives k (List.mem_cons_of_mem _ hk), ?_⟩
      · simp only [hpatterns]
        exact hdom
      · exact (merge_eq_project_iff hb hmb hc).2 ⟨hproject, hbinding.symm⟩
      · rw [hexp, List.toFinset_cons, Finset.inf_insert, ← hf, ← hmf, WithBot.coe_min, inf_assoc]

/-- No binding comes out twice: the matches it was made of are in it. -/
theorem nodup_extend (h : c.Sound) (hfit : c.Fitting query g) {V : PatternSet} {order : List Nat}
    (horder : Chained (Analysis.linksOf g) V order) (hb : Binds g V b) :
    (extend c (.ofPattern g) query now order b e).Pairwise fun x y => x.binding ≠ y.binding := by
  induction horder generalizing b e with
  | nil => exact List.pairwise_singleton _ _
  | @cons V j rest hj hlinked horder ih =>
    obtain ⟨i, hi, hij⟩ := hlinked
    obtain ⟨-, v, hvi, hvj⟩ := Analysis.mem_linksOf.1 hij
    have hvb : v ∈ b := (hb v).2 ⟨i, hi, hvi⟩
    have hfacts : ∀ m ∈ candidates c (.ofPattern g) query now j b, (∃ n, c.get? n = some m) ∧
        m.query = query ∧ m.part = j ∧ Binds g (.single j) m.binding ∧
        b.compatible m.binding = true := by
      intro m hm
      obtain ⟨⟨n, hn⟩, hq, hpart, hc, -⟩ := (mem_candidates h hfit hvj hvb).1 hm
      exact ⟨⟨n, hn⟩, hq, hpart, hpart ▸ (hfit n m hn hq).domain, hc⟩
    have hportion : ∀ m ∈ candidates c (.ofPattern g) query now j b,
        ∀ x ∈ extend c (.ofPattern g) query now rest (b.merge m.binding) (min e m.expiration),
          g.portion x.binding j = m.binding := by
      intro m hm x hx
      obtain ⟨-, -, -, hmb, hc⟩ := hfacts m hm
      obtain ⟨-, hproject, -⟩ := (mem_extend h hfit horder (hb.merge hmb)).1 hx
      exact ((merge_eq_project_iff hb hmb hc).1 hproject).2
    rw [extend, List.pairwise_flatMap]
    constructor
    · intro m hm
      obtain ⟨-, -, -, hmb, -⟩ := hfacts m hm
      exact ih (hb.merge hmb)
    · refine (List.Pairwise.and_mem.1 (nodup_candidates h _)).imp ?_
      intro m n ⟨hm, hn, hne⟩ x hx y hy hxy
      obtain ⟨⟨k, hk⟩, hmq, hmpart, -, -⟩ := hfacts m hm
      obtain ⟨⟨l, hl⟩, hnq, hnpart, -, -⟩ := hfacts n hn
      have hbinding : m.binding = n.binding := by
        rw [← hportion m hm x hx, hxy, hportion n hn y hy]
      have hkey : m.key = n.key := by
        unfold key
        rw [hmq, hnq, hmpart, hnpart, hbinding]
      have hkl := h.eq_of_key hk hl hkey
      rw [hkl, hl] at hk
      exact hne (Option.some.inj hk).symm

/-! ### Taking in a match -/

section AddMatch

variable {x : Expirations} {a : Analysis} {n : SolutionId}

theorem addMatch_none (h : (c.insert m).1.id? = none) :
    addMatch c x m a now = (none, c, x) := by
  unfold addMatch
  simp only [h]

theorem addMatch_some (h : (c.insert m).1.id? = some n) : addMatch c x m a now =
    (some (extend (c.insert m).2 a m.query now (a.joinOrder m.part) m.binding m.expiration),
      (c.insert m).2, x.track (.solution n) m.expiration) := by
  unfold addMatch
  simp only [h]

/-- Taking in a match is storing it. -/
theorem addMatch_cache (h : c.Sound) (x : Expirations) (m : PartialSolution Nat) (a : Analysis)
    (now : Nat) : (addMatch c x m a now).2.1 = (c.insert m).2 := by
  cases hn : (c.insert m).1.id? with
  | none => rw [addMatch_none hn, insert_none h hn]
  | some n => rw [addMatch_some hn]

theorem fitting_insert (h : c.Sound) (hfit : c.Fitting query g)
    (hm : g.Fits (.single m.part) m.binding) : Fitting (c.insert m).2 query g := by
  intro n q hq hquery
  rcases of_get?_insert h.toSound hq with rfl | hq
  · exact hm
  · exact hfit n q hq hquery

/-- Along the join order of its pattern, a match is extended to the bindings of the whole
query that contain it and whose other matches are cached and valid. -/
theorem mem_extend_joinOrder (h : c.Sound) (hfit : c.Fitting query g) (hpiece : g.OnePiece)
    (hcap : g.length ≤ PatternSet.capacity) (hi : g.Fits (.single i) b) :
    ⟨b', e'⟩ ∈ extend c (.ofPattern g) query now ((Analysis.ofPattern g).joinOrder i) b e ↔
      g.Fits (.full g.length) b' ∧ g.portion b' i = b ∧
        (∀ j ∈ (PatternSet.full g.length).members.erase i, .upTo now < portionLife c g query b' j) ∧
        (e' : Life) = (e : Life) ⊓
          ((PatternSet.full g.length).members.erase i).inf (portionLife c g query b') := by
  obtain ⟨hlt, hdom⟩ := fits_single_iff.1 hi
  have hfull : ∀ j, j ∈ PatternSet.full g.length ↔ j < g.length := fun j => by
    rw [PatternSet.mem_full, Nat.min_eq_left hcap]
  have horder : ∀ j, j ∈ (Analysis.ofPattern g).joinOrder i ↔
      j ∈ (PatternSet.full g.length).members.erase i := fun j => by
    rw [GraphPattern.mem_joinOrder hpiece hlt, Finset.mem_erase, PatternSet.mem_members, hfull,
      and_comm]
  have htoFinset : ((Analysis.ofPattern g).joinOrder i).toFinset =
      (PatternSet.full g.length).members.erase i := by
    ext j
    rw [List.mem_toFinset, horder]
  have hpatterns : ∀ j, (j ∈ PatternSet.single i ∨ j ∈ (Analysis.ofPattern g).joinOrder i) ↔
      j ∈ PatternSet.full g.length := fun j => by
    rw [GraphPattern.mem_joinOrder hpiece hlt, hfull, PatternSet.mem_single]
    constructor
    · intro hj
      rcases hj with rfl | hj
      · exact hlt
      · exact hj.1
    · intro hj
      by_cases hji : j = i
      · exact .inl hji
      · exact .inr ⟨hj, hji⟩
  have hvars : b'.project (g.varsIn (.single i)) = g.portion b' i := by
    refine Binding.ext_lookup fun v => ?_
    rw [portion, Binding.lookup_project, Binding.lookup_project]
    simp only [mem_varsIn, PatternSet.mem_single, exists_eq_left]
  rw [mem_extend h hfit (Analysis.chained_joinOrder hlt) hi.domain, hvars, htoFinset]
  simp only [hpatterns]
  simp only [horder]
  constructor
  · intro ⟨hb', hrest⟩
    exact ⟨⟨connected_full hpiece (by omega) hcap, hb'⟩, hrest⟩
  · intro ⟨hb', hrest⟩
    exact ⟨hb'.domain, hrest⟩

end AddMatch

end MatchCache

end StandingQuery
