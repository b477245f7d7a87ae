import StandingQuery.Proofs.Lasting

/-! Solutions that are sent again.

A solution is sent again only with an expiration that is at least as late. With the
symmetric join, and for queries of one pattern, it is later: the store knows how long
a solution lives, and passes over what does not make it live longer. The caching join
knows this of single matches only. When one match of a solution comes to live longer
and another does not, the solution is sent again with the expiration it had, and this
happens to every query of two or more patterns (`later_iff`). -/
namespace StandingQuery

/-! ### Every query can be matched -/

/-- All of the variables bound to one term. -/
def Binding.constant (vs : List Variable) (t : Term) : Binding :=
  vs.foldr (fun v b => b.insert v t) ∅

theorem Binding.mem_constant {vs : List Variable} {t : Term} {v : Variable} :
    v ∈ Binding.constant vs t ↔ v ∈ vs := by
  induction vs with
  | nil => simp [Binding.constant]
  | cons w vs ih =>
    show v ∈ (Binding.constant vs t).insert w t ↔ _
    rw [Binding.mem_insert, ih, List.mem_cons]

/-- A binding of all its variables makes a pattern a tuple. -/
theorem TuplePattern.exists_instantiate {p : TuplePattern} {m : Binding}
    (h : ∀ v ∈ p.vars, v ∈ m) : ∃ t, p.instantiate m = some t := by
  have hslots : ∀ slots : List Slot, (∀ v, .var v ∈ slots → v ∈ m) →
      ∃ terms, slots.mapM (Slot.resolve m) = some terms := by
    intro slots
    induction slots with
    | nil => exact fun _ => ⟨[], rfl⟩
    | cons s slots ih =>
      intro hm
      obtain ⟨terms, hterms⟩ := ih fun v hv => hm v (List.mem_cons_of_mem _ hv)
      obtain ⟨t, ht⟩ : ∃ t, s.resolve m = some t := by
        cases s with
        | const c => exact ⟨c, rfl⟩
        | var v => exact Binding.mem_iff_lookup.1 (hm v List.mem_cons_self)
      exact ⟨t :: terms, resolve_cons_iff.2 ⟨ht, hterms⟩⟩
  obtain ⟨terms, hterms⟩ := hslots p.slots fun v hv => h v (mem_vars.2 hv)
  exact ⟨⟨terms⟩, by rw [instantiate, hterms]; rfl⟩

namespace GraphPattern

variable {g : GraphPattern} {P : PatternSet} {b : Binding} {i : Nat} {c : Candidate}
variable {strategy : JoinStrategy} {A B : List Hit} {h : Hit} {served : List Candidate}
variable {d e : Expiration}

theorem exists_fits (hP : g.Connected P) : ∃ b, g.Fits P b :=
  ⟨.constant (g.varsIn P) ⟨""⟩, hP, fun _ => Binding.mem_constant.trans mem_varsIn⟩

/-- Each match of a binding is given by some tuple. -/
theorem Fits.exists_matchAt (hb : g.Fits P b) (hi : i ∈ P) :
    ∃ t, g.matchAt i t = some (g.portion b i) := by
  have hlt := hb.connected.inRange i hi
  have hp : g[i]? = some g[i] := List.getElem?_eq_getElem hlt
  have hdom := (fits_single_iff.1 (hb.portion hi)).2
  rw [varsAt_of_getElem? hp] at hdom
  obtain ⟨t, ht⟩ := TuplePattern.exists_instantiate fun v hv => (hdom v).2 hv
  refine ⟨t, ?_⟩
  unfold matchAt
  rw [hp, Option.bind_some, TuplePattern.match?_eq_some_iff]
  exact ⟨hdom, ht⟩

/-! ### A match that lives longer than its solution -/

theorem Served.append_inv (hs : Served strategy g (A ++ B) served) :
    ∃ earlier later, served = earlier ++ later ∧ Served strategy g A earlier := by
  induction B using List.reverseRecOn generalizing served with
  | nil =>
    rw [List.append_nil] at hs
    exact ⟨served, [], (List.append_nil _).symm, hs⟩
  | append_singleton B h ih =>
    rw [← List.append_assoc] at hs
    obtain ⟨most, fresh, rfl, hmost, -, -⟩ := hs.concat_inv
    obtain ⟨earlier, later, rfl, hearlier⟩ := ih hmost
    exact ⟨earlier, later ++ fresh, by simp, hearlier⟩

/-- With the caching join a match that comes to live longer completes a solution that does not. -/
theorem completes_again {L : Book} (hb : g.Fits (.full g.length) b)
    (hlength : 1 < (PatternSet.full g.length).members.card)
    (hall : ∀ i ∈ PatternSet.full g.length, L i (g.portion b i) = d)
    (hi : h.pattern ∈ PatternSet.full g.length) (hm : g.portion b h.pattern = h.binding)
    (halive : .instant h.now < d) (hlonger : d < h.expiration) :
    g.Completes .caching L h ⟨b, d⟩ where
  fits := hb
  inRange := hi
  contains := hm
  alive := halive
  expiration := by
    -- Another match still ends at `d`, and none ends before.
    obtain ⟨j, hj, hne⟩ := Finset.exists_mem_ne hlength h.pattern
    have hj := PatternSet.mem_members.1 hj
    refine le_antisymm ?_ ?_
    · obtain ⟨k, hk, hlife⟩ := exists_joinLife_eq (g := g) (L := L) (b := b) hi
      rw [← hall k hk, ← hlife]
      exact joinLife_le_hit
    · have hle := joinLife_le (g := g) (L := L.record h) (b := b) hj
      rwa [Book.record, Book.hit_of_ne fun hit => hne hit.1, hall j hj] at hle
  triggers := by
    show L h.pattern h.binding < h.expiration
    rw [← hm, hall _ hi]
    exact WithBot.coe_lt_coe.2 hlonger

/-- Once a solution has been served, matches that come to live longer one by one make the
caching join serve it again as it was. -/
theorem Served.repeats (hs : Served .caching g (A ++ B) served) (hb : g.Fits (.full g.length) b)
    (hlength : 1 < (PatternSet.full g.length).members.card)
    (hall : ∀ i ∈ PatternSet.full g.length, Book.ofHits A i (g.portion b i) = d)
    (halive : ∀ h ∈ A ++ B, .instant h.now < d) (hlonger : ∀ h ∈ B, d < h.expiration)
    (hhit : ∃ h ∈ B, h.pattern ∈ PatternSet.full g.length ∧ g.portion b h.pattern = h.binding) :
    ¬ served.Pairwise fun c c' => c.binding = c'.binding → c.expiration < c'.expiration := by
  induction B generalizing A with
  | nil =>
    obtain ⟨h, hh, -⟩ := hhit
    cases hh
  | cons h B ih =>
    rw [List.append_cons] at hs halive
    by_cases hmine : h.pattern ∈ PatternSet.full g.length ∧ g.portion b h.pattern = h.binding
    · -- This hit serves the solution for the second time.
      obtain ⟨earlier, later, rfl, hearlier⟩ := hs.append_inv
      obtain ⟨before, fresh, rfl, hbefore, -, hfresh⟩ := hearlier.concat_inv
      have hfirst : ⟨b, d⟩ ∈ before := by
        refine hbefore.mem_of_alive hb ?_ fun h' hh => halive h' (by simp [hh])
        obtain ⟨k, hk, hlife⟩ := exists_joinLife_eq (g := g) (L := .ofHits A) (b := b) hmine.1
        rw [lifeAfter, hlife, hall k hk]
      have hagain : ⟨b, d⟩ ∈ fresh := (hfresh _).2 (completes_again hb hlength hall hmine.1 hmine.2
        (halive h (by simp)) (hlonger h List.mem_cons_self))
      intro hpairwise
      rw [List.pairwise_append, List.pairwise_append] at hpairwise
      exact lt_irrefl _ (hpairwise.1.2.2 _ hfirst _ hagain rfl)
    · -- This hit is no match of the solution.
      refine ih hs (fun i hi => ?_) halive (fun h' hh => hlonger h' (List.mem_cons_of_mem _ hh)) ?_
      · rw [Book.ofHits_concat, Book.record, Book.hit_of_ne, hall i hi]
        exact fun hit => hmine ⟨hit.1 ▸ hi, hit.1 ▸ hit.2⟩
      · obtain ⟨h', hh, hit⟩ := hhit
        rcases List.mem_cons.1 hh with rfl | hh
        · exact absurd hit hmine
        · exact ⟨h', hh, hit⟩

end GraphPattern

namespace QueryIndex
open Watched GraphPattern

variable {c : Config} {id : QueryId} {g : GraphPattern} {a : Analysis} {sent : List Solution}

/-- What a query with default modifiers is sent in some run: from its registration on, as long
as the id is not registered again. -/
def SentIn (c : Config) (id : QueryId) (g : GraphPattern) (sent : List Solution) : Prop :=
  ∃ before now quota ops,
    ((before ++ (now, Operation.register id ⟨g, {}⟩ 0 quota) :: ops).map Prod.fst).Pairwise (· ≤ ·) ∧
      let w := ((Watched.new c).run before).2
      (w.perform now (.register id ⟨g, {}⟩ 0 quota)).1 = .done ∧
        (∀ e ∈ (w.next now (.register id ⟨g, {}⟩ 0 quota)).events ops, e.asked? id = none) ∧
        sent = deliveries id ((w.next now (.register id ⟨g, {}⟩ 0 quota)).events ops)

theorem exists_latest (es : List Event) : ∃ now, ∀ e ∈ es, e.now ≤ now := by
  induction es with
  | nil => exact ⟨0, by simp⟩
  | cons e es ih =>
    obtain ⟨now, hnow⟩ := ih
    refine ⟨max e.now now, fun e' he => ?_⟩
    rcases List.mem_cons.1 he with rfl | he
    · exact le_max_left _ _
    · exact (hnow e' he).trans (le_max_right _ _)

/-- What is sent is what hits are served, or the beginning of it. -/
theorem SentIn.served (h : SentIn c id g sent) : ∃ hits served,
    Served c.joinStrategy g hits served ∧
      sent <+: served.map fun c => ⟨id, .bindings c.binding, c.expiration⟩ := by
  obtain ⟨before, now, quota, ops, hsorted, hdone, hnone, rfl⟩ := h
  have hbefore := history_run (Watched.new c) before
  have hc := hbefore.consistent (consistent_new c)
  generalize ((Watched.new c).run before).2 = w at hdone hnone hbefore hc ⊢
  have hstart := serving_of_done hc hdone
  have hconsistent := consistent_next hc now (.register id ⟨g, {}⟩ 0 quota)
  have hrun := history_run (w.next now (.register id ⟨g, {}⟩ 0 quota)) ops
  have hsorted' : (((w.next now (.register id ⟨g, {}⟩ 0 quota)).events ops).map Event.now).Pairwise
      (· ≤ ·) := by
    rw [map_now_events]
    rw [List.map_append, List.map_cons, List.pairwise_append, List.pairwise_cons] at hsorted
    exact hsorted.2.1.2
  obtain ⟨last, hlast⟩ := exists_latest ((w.next now (.register id ⟨g, {}⟩ 0 quota)).events ops)
  have hserving := serving_history hrun hconsistent hstart hnone hsorted' hlast
  obtain ⟨hits, served, hserved, hbegins, -⟩ := hserving.sent Modifiers.plain_default
  rw [Modifiers.sent_default] at hbegins
  refine ⟨hits, served, ?_, hbegins⟩
  rwa [((hbefore.concat now _).run ops).strategy] at hserved

theorem maxQueries_of_valid (hc : c.fault? = none) : c.maxQueries ≠ some 0 := by
  intro h
  unfold Config.fault? at hc
  split at hc
  · cases hc
  · split at hc
    · cases hc
    · split at hc
      · cases hc
      · cases hc

/-- An index that has just been made admits every valid query. -/
theorem done_of_new {query : Query} (hc : c.fault? = none) (hv : query.validate c.arity = .ok a)
    (id : QueryId) (now ttl : Nat) (quota : Option Nat) :
    ((Watched.new c).perform now (.register id query ttl quota)).1 = .done := by
  have hnone : (Watched.new c).index.registry.refusal? id = none := by
    unfold Registry.refusal?
    rw [if_neg (by simp [Watched.new, QueryIndex.new, Registry.contains]), if_neg]
    cases hmax : c.maxQueries with
    | none => simp [Watched.new, QueryIndex.new, hmax]
    | some n =>
      have hn : n ≠ 0 := fun h => maxQueries_of_valid hc (by rw [hmax, h])
      simp [Watched.new, QueryIndex.new, hmax, Registry.size, hn]
  exact perform_register_done_iff.2 ⟨⟨a, hv⟩, hnone⟩

/-- A new index that is left alone with one query sends it what its hits are served. -/
theorem exists_sentIn (hc : c.fault? = none) (hg : Query.validate ⟨g, {}⟩ c.arity = .ok a)
    (ops : List (Nat × Operation)) (hspares : ∀ o ∈ ops, o.2.Spares id)
    (hsorted : (ops.map Prod.fst).Pairwise (· ≤ ·)) :
    ∃ served, Served c.joinStrategy g
        ((ops.filterMap fun o => o.2.arrival? o.1).flatMap (hitsOf id g)) served ∧
      SentIn c id g (served.map fun c => ⟨id, .bindings c.binding, c.expiration⟩) := by
  have hdone := done_of_new hc hg id 0 0 none
  have hconsistent := consistent_next (w := Watched.new c) (consistent_new c) 0
    (.register id ⟨g, {}⟩ 0)
  have hlasting := (lasting_register hdone).1
  have hstart := serving_of_done (consistent_new c) hdone
  have hrun := history_run ((Watched.new c).next 0 (.register id ⟨g, {}⟩ 0)) ops
  have hnows := map_now_events ((Watched.new c).next 0 (.register id ⟨g, {}⟩ 0)) ops
  have harrivals := arrivals_events ((Watched.new c).next 0 (.register id ⟨g, {}⟩ 0)) ops
  obtain ⟨hlasting', hnone⟩ := lasting_history hrun hconsistent hstart Modifiers.plain_default
    hlasting (forall_events hspares _) (hnows ▸ hsorted)
  obtain ⟨last, hlast⟩ := exists_latest
    (((Watched.new c).next 0 (.register id ⟨g, {}⟩ 0)).events ops)
  have hserving := serving_history hrun hconsistent hstart hnone (hnows ▸ hsorted) hlast
  obtain ⟨hits, served, hserved, -, hall⟩ := hserving.sent Modifiers.plain_default
  obtain ⟨rfl, hsent⟩ := hall hlasting'.active
  rw [((History.nil.concat 0 _).run ops).strategy, harrivals] at hserved
  rw [Modifiers.sent_default] at hsent
  refine ⟨served, hserved, [], 0, none, ops, ?_, hdone, hnone, hsent.symm⟩
  exact List.pairwise_cons.2 ⟨fun n _ => Nat.zero_le n, hsorted⟩

/-- All patterns of a query are matched with tuples that expire after a second, and one of
the tuples comes once more with a later expiration. -/
def refreshing (g : GraphPattern) (t : Nat → Tuple) : List (Nat × Operation) :=
  (List.range g.length).map (fun i => (0, .add (t i) 1)) ++ [(0, .add (t 0) 2)]

theorem arrivals_refreshing (g : GraphPattern) (t : Nat → Tuple) :
    ((refreshing g t).filterMap fun o => o.2.arrival? o.1) =
      (List.range g.length).map (fun i => ⟨0, t i, .ofTtl 0 1⟩) ++ [⟨0, t 0, .ofTtl 0 2⟩] := by
  rw [refreshing, List.filterMap_append, List.filterMap_map]
  exact congrArg (· ++ [_]) (congrFun List.filterMap_eq_map _)

theorem now_and_spares_of_refreshing {t : Nat → Tuple} {o : Nat × Operation}
    (h : o ∈ refreshing g t) (id : QueryId) : o.1 = 0 ∧ o.2.Spares id := by
  rcases List.mem_append.1 h with h | h
  · obtain ⟨i, -, rfl⟩ := List.mem_map.1 h
    exact ⟨rfl, trivial⟩
  · rw [List.mem_singleton.1 h]
    exact ⟨rfl, trivial⟩

/-- With the caching join, a query of two or more patterns is sent a solution again as it was. -/
theorem exists_sent_again (hc : c.fault? = none) (hg : Query.validate ⟨g, {}⟩ c.arity = .ok a)
    (hs : c.joinStrategy = .caching) (hlength : 1 < g.length) (id : QueryId) :
    ∃ sent, SentIn c id g sent ∧
      ¬ sent.Pairwise fun s s' => s.output = s'.output → s.expiration < s'.expiration := by
  obtain ⟨hpos, hcapacity, -⟩ := analyse_eq_ok_iff.1 (Query.validate_eq_ok hg).1
  have hfull : ∀ i, i ∈ PatternSet.full g.length ↔ i < g.length := fun i => by
    rw [PatternSet.mem_full]
    exact lt_min_iff.trans (and_iff_left_of_imp fun h => h.trans_le hcapacity)
  obtain ⟨b, hb⟩ := exists_fits
    (connected_full (onePiece_of_analyse (Query.validate_eq_ok hg).1) hpos hcapacity)
  have hmatch : ∀ i, ∃ t, i < g.length → g.matchAt i t = some (g.portion b i) := by
    intro i
    by_cases hi : i < g.length
    · obtain ⟨t, ht⟩ := hb.exists_matchAt ((hfull i).2 hi)
      exact ⟨t, fun _ => ht⟩
    · exact ⟨⟨[]⟩, fun h => absurd h hi⟩
  choose t ht using hmatch
  obtain ⟨served, hserved, hsent⟩ := exists_sentIn hc hg (refreshing g t)
    (fun o ho => (now_and_spares_of_refreshing ho id).2) (List.pairwise_map.2
      (List.pairwise_of_forall_mem_list fun o ho o' _ => by
        rw [(now_and_spares_of_refreshing ho id).1]
        exact Nat.zero_le _))
  refine ⟨_, hsent, fun hpairwise => ?_⟩
  rw [arrivals_refreshing, List.flatMap_append, List.flatMap_singleton, hs] at hserved
  have hnow : ∀ h ∈ ((List.range g.length).map fun i => (⟨0, t i, .ofTtl 0 1⟩ : Arrival)).flatMap
      (hitsOf id g) ++ hitsOf id g ⟨0, t 0, .ofTtl 0 2⟩, h.now = 0 := by
    intro h hh
    rcases List.mem_append.1 hh with hh | hh
    · obtain ⟨arrival, harrival, hh⟩ := List.mem_flatMap.1 hh
      obtain ⟨i, -, rfl⟩ := List.mem_map.1 harrival
      exact (mem_hitsOf.1 hh).2.1
    · exact (mem_hitsOf.1 hh).2.1
  refine hserved.repeats hb (d := .ofTtl 0 1) ?_ (fun i hi => ?_) (fun h hh => ?_) (fun h hh => ?_)
    ⟨⟨0, 0, g.portion b 0, .ofTtl 0 2⟩, mem_hitsOf.2 ⟨ht 0 hpos, rfl, rfl⟩, (hfull 0).2 hpos, rfl⟩ ?_
  · exact Finset.one_lt_card.2 ⟨0, PatternSet.mem_members.2 ((hfull 0).2 hpos), 1,
      PatternSet.mem_members.2 ((hfull 1).2 hlength), by decide⟩
  · rw [ofHits_flatMap, latest_eq_coe_iff (by simp)]
    have hi := (hfull i).1 hi
    exact ⟨t i, List.mem_map.2 ⟨_, List.mem_map_of_mem (List.mem_range.2 hi), rfl⟩, ht i hi⟩
  · rw [hnow h hh]
    decide
  · rw [(mem_hitsOf.1 hh).2.2]
    show Expiration.ofTtl 0 1 < .ofTtl 0 2
    decide
  · exact (List.pairwise_map.1 hpairwise).imp fun hlt heq => hlt (congrArg Output.bindings heq)

/-- What is sent again expires no earlier. It expires later in every run exactly if the join
is the symmetric one or the query has one pattern only. -/
theorem later_iff (hc : c.fault? = none) (hg : Query.validate ⟨g, {}⟩ c.arity = .ok a)
    (id : QueryId) :
    (∀ sent, SentIn c id g sent →
        sent.Pairwise fun s s' => s.output = s'.output → s.expiration ≤ s'.expiration) ∧
      ((∀ sent, SentIn c id g sent →
          sent.Pairwise fun s s' => s.output = s'.output → s.expiration < s'.expiration) ↔
        c.joinStrategy = .symmetric ∨ g.length = 1) := by
  refine ⟨fun sent hsent => ?_, fun hall => ?_, fun hlonger sent hsent => ?_⟩
  · obtain ⟨hits, served, hserved, hbegins⟩ := hsent.served
    refine List.Pairwise.sublist hbegins.sublist (List.pairwise_map.2 ?_)
    exact hserved.le.imp fun hle heq => hle (Output.bindings.inj heq)
  · by_contra hne
    rw [not_or] at hne
    obtain ⟨hs, hlength⟩ := hne
    have hpos : 0 < g.length := (analyse_eq_ok_iff.1 (Query.validate_eq_ok hg).1).1
    have hcaching : c.joinStrategy = .caching := by
      cases h : c.joinStrategy with
      | symmetric => exact absurd h hs
      | caching => rfl
    obtain ⟨sent, hsent, hagain⟩ := exists_sent_again hc hg hcaching (by omega) id
    exact hagain (hall sent hsent)
  · obtain ⟨hits, served, hserved, hbegins⟩ := hsent.served
    refine List.Pairwise.sublist hbegins.sublist (List.pairwise_map.2 ?_)
    exact (hserved.lt hlonger).imp fun hlt heq => hlt (Output.bindings.inj heq)

/-- An edge follows another, and comes once more with a later expiration. -/
def followed : List (Nat × Operation) :=
  [(0, .add ⟨[⟨"y"⟩, ⟨"p"⟩, ⟨"z"⟩]⟩ 1), (0, .add ⟨[⟨"x"⟩, ⟨"p"⟩, ⟨"y"⟩]⟩ 1),
    (0, .add ⟨[⟨"x"⟩, ⟨"p"⟩, ⟨"y"⟩]⟩ 2)]

/-- Both edges together expire no later than they did, but the caching join sends them again. -/
theorem later_iff_twoEdges :
    let sent := deliveries 1 (((Watched.new { joinStrategy := .caching }).next 0
      (.register 1 ⟨twoEdges, {}⟩ 0)).events followed)
    let s : Solution := ⟨1, .bindings (((({} : Binding).insert ⟨"a"⟩ ⟨"x"⟩).insert
      ⟨"b"⟩ ⟨"y"⟩).insert ⟨"c"⟩ ⟨"z"⟩), .instant 1000⟩
    SentIn { joinStrategy := .caching } 1 twoEdges sent ∧ sent = [s, s] ∧
      (sent.Pairwise fun s s' => s.output = s'.output → s.expiration ≤ s'.expiration) ∧
      ¬ ∀ sent, SentIn { joinStrategy := .caching } 1 twoEdges sent →
        sent.Pairwise fun s s' => s.output = s'.output → s.expiration < s'.expiration := by
  intro sent s
  have hfault : Config.fault? { joinStrategy := .caching } = none := by decide
  have hnot : ¬ (JoinStrategy.caching = .symmetric ∨ twoEdges.length = 1) := by decide
  obtain ⟨a, ha⟩ : ∃ a, Query.validate ⟨twoEdges, {}⟩ 3 = .ok a := ⟨_, rfl⟩
  have hsent : SentIn { joinStrategy := .caching } 1 twoEdges sent :=
    ⟨[], 0, none, followed, by decide, by decide +kernel, by decide +kernel, rfl⟩
  obtain ⟨hle, hiff⟩ := later_iff hfault ha 1
  exact ⟨hsent, by decide +kernel, hle sent hsent, fun hlt => hnot (hiff.1 hlt)⟩

end QueryIndex

end StandingQuery
