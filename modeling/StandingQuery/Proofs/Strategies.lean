import StandingQuery.Proofs.History
import StandingQuery.Proofs.Lockstep

/-! The two joins agree.

Take the same operations on an index with the symmetric join and on one with the caching
join, with queries that take solutions as they come and subscribers that do not react.
Every operation keeps the two in lockstep (`lockstep_next`), so a query has been hit by the
same tuples in both runs, and what it has been sent is the same as a set. What the one
index stores of single matches is what the other one stores (`strategies_agree`). -/
namespace StandingQuery
open Std

namespace QueryIndex
open JoinState Watched GraphPattern

/-- A registered query takes solutions as they come, and its subscriber has no quota. -/
def Operation.Undemanding : Operation → Prop
  | .register _ query _ quota => query.modifiers.Plain ∧ quota = none
  | _ => True

variable {id : QueryId} {query : Query} {now : Nat} {op : Operation} {es : List Event} {e : Event}
variable {c : Config} {ops : List (Nat × Operation)}

/-! ### One run -/

namespace Watched

variable {v w : Watched}

/-- An index without a bound on the queries, all of which take solutions as they come, and
whose subscribers have no quota. -/
structure Quiet (w : Watched) : Prop where
  consistent : w.index.Consistent []
  inert : w.index.Inert w.quotas
  unbounded : w.index.registry.maxQueries = none

theorem quiet_new (hc : c.maxQueries = none) : (Watched.new c).Quiet where
  consistent := consistent_new c
  inert := ⟨fun _ _ h => (Option.some_ne_none _ h.symm).elim, fun _ => ExtTreeMap.getElem?_empty⟩
  unbounded := hc

/-- Operations that register undemanding queries keep an index inert. -/
theorem inert_next (hc : w.index.Consistent []) (h : w.index.Inert w.quotas) (hop : op.Undemanding)
    (now : Nat) : (w.next now op).index.Inert (w.next now op).quotas := by
  constructor
  · intro id query hasked
    rcases asked?_next hc hasked with hnew | ⟨-, hold⟩
    · unfold event Event.asked? Operation.asked? at hnew
      dsimp only at hnew
      split at hnew
      · split at hnew
        · cases hnew
          exact hop.1
        · cases hnew
      · cases hnew
    · exact h.plain id query hold
  · intro id
    have hsame := h.unwatched id
    unfold next
    cases op with
    | register i query ttl quota =>
      rcases perform_register w now i query ttl quota with ⟨e, hp⟩ | ⟨analysis, index, hv, hr, hp⟩
      · rw [hp]
        exact hsame
      · rw [hp]
        dsimp only
        rw [hop.2, ExtTreeMap.getElem?_alter, hsame, ite_self]
    | deactivate i =>
      rcases perform_deactivate w now i with hp | hp
      · rw [hp]
        exact hsame
      · rw [hp]
        exact hsame
    | add t ttl => exact (inert_add hc h t ttl now).1.unwatched id
    | unregister i => exact hsame
    | renew i ttl => exact hsame
    | removeExpired => exact hsame
    | clear => exact hsame

theorem quiet_next (h : w.Quiet) (hop : op.Undemanding) (now : Nat) : (w.next now op).Quiet where
  consistent := consistent_next h.consistent now op
  inert := inert_next h.consistent h.inert hop now
  unbounded := (congrArg Settings.maxQueries (settings_next h.consistent now op)).trans h.unbounded

/-- A query that is not registered or not active after an operation has been sent nothing by it. -/
theorem silent (h : w.Quiet) (hidle : id ∉ (w.next now op).index.active ∨
    (w.next now op).index.asked? id = none) : sentTo id (w.event now op).log = [] := by
  cases op with
  | add t ttl =>
    obtain ⟨-, hactive, hsettled⟩ := inert_add h.consistent h.inert t ttl now
    refine (idle_add h.consistent h.inert (hidle.imp (fun hout => ?_) fun hnone => ?_) t ttl now).2
    · rwa [← hactive]
    · have hasked : (w.next now (.add t ttl)).index.asked? id = w.index.asked? id := by
        rw [asked?_eq, asked?_eq]
        exact congrArg _ (hsettled id)
      rw [hasked, asked?_eq, Option.map_eq_none_iff] at hnone
      exact settled?_eq_none.1 hnone
  | register i query ttl quota => exact congrArg (sentTo id) (log_eq_nil rfl)
  | deactivate i => exact congrArg (sentTo id) (log_eq_nil rfl)
  | unregister i => rfl
  | renew i ttl => rfl
  | removeExpired => rfl
  | clear => rfl

/-! ### Two runs -/

/-- Two quiet indexes with different joins that are otherwise in the same state. -/
structure Lockstep (v w : Watched) : Prop where
  left : v.Quiet
  right : w.Quiet
  alike : Alike v.index w.index
  arity : w.index.arity = v.index.arity
  known : w.known = v.known

/-- Both indexes take in a query or neither. -/
theorem lockstep_next (h : Lockstep v w) (hv : v.index.Followed now) (hw : w.index.Followed now)
    (hop : op.Undemanding) : Lockstep (v.next now op) (w.next now op) ∧
      ∀ id, (w.event now op).asked? id = (v.event now op).asked? id := by
  have hx := h.left.consistent
  have hy := h.right.consistent
  have harity : (w.next now op).index.arity = (v.next now op).index.arity :=
    (congrArg Settings.arity (settings_next hy now op)).trans
      (h.arity.trans (congrArg Settings.arity (settings_next hx now op)).symm)
  suffices hsame : Alike (v.next now op).index (w.next now op).index ∧
      (w.next now op).known = (v.next now op).known ∧
      ∀ id, (w.event now op).asked? id = (v.event now op).asked? id from
    ⟨⟨quiet_next h.left hop now, quiet_next h.right hop now, hsame.1, harity, hsame.2.1⟩, hsame.2.2⟩
  unfold next event Event.asked?
  cases op with
  | register i query ttl quota =>
    have hrefusal : w.index.registry.refusal? i = v.index.registry.refusal? i :=
      Registry.refusal?_congr (h.right.unbounded.trans h.left.unbounded.symm)
        (by rw [isSome_get?, isSome_get?, h.alike.settled])
        fun hbound => absurd h.left.unbounded hbound
    rcases perform_register_alike h.arity hrefusal now query ttl quota with
      ⟨e, hp, hp'⟩ | ⟨analysis, x, y, hr, hr', hp, hp'⟩
    · rw [hp, hp']
      exact ⟨h.alike, h.known, fun _ => rfl⟩
    · rw [hp, hp']
      exact ⟨alike_register h.alike hr hr', congrArg (·.insert i) h.known, fun _ => rfl⟩
  | deactivate i =>
    rw [perform_deactivate_eq, perform_deactivate_eq, h.known]
    split
    · exact ⟨alike_deactivate h.alike i, rfl, fun _ => rfl⟩
    · exact ⟨h.alike, h.known, fun _ => rfl⟩
  | unregister i => exact ⟨alike_unregister h.alike hx hy i, h.known, fun _ => rfl⟩
  | renew i ttl => exact ⟨alike_renew h.alike hx hy i ttl now, h.known, fun _ => rfl⟩
  | add t ttl =>
    exact ⟨alike_add h.alike hx hy h.left.inert h.right.inert hv hw t ttl, h.known, fun _ => rfl⟩
  | removeExpired => exact ⟨alike_removeExpired h.alike hx hy now, h.known, fun _ => rfl⟩
  | clear => exact ⟨alike_clear h.alike, h.known, fun _ => rfl⟩

end Watched

/-! ### The same solutions -/

/-- What a query that takes solutions as they come is sent with the one join it is sent with
the other, if the tuples are the same. -/
theorem mem_sent_iff {x y : QueryIndex} {τ τ' : Life} {arrivals : List Arrival}
    {sent sent' : List Solution} {s : Solution} (hplain : query.modifiers.Plain)
    (hx : x.Serving τ id query (arrivals.flatMap (hitsOf id query.pattern)) sent)
    (hy : y.Serving τ' id query (arrivals.flatMap (hitsOf id query.pattern)) sent')
    (hsx : x.joins.strategy = .symmetric) (hsy : y.joins.strategy = .caching)
    (hactive : id ∈ x.active) (hactive' : id ∈ y.active)
    (hsorted : (arrivals.map Arrival.now).Pairwise (· ≤ ·)) : s ∈ sent ↔ s ∈ sent' := by
  obtain ⟨hits, served, hserved, -, hall⟩ := hx.sent hplain
  obtain ⟨rfl, rfl⟩ := hall hactive
  obtain ⟨hits', served', hserved', -, hall'⟩ := hy.sent hplain
  obtain ⟨rfl, rfl⟩ := hall' hactive'
  rw [hsx] at hserved
  rw [hsy] at hserved'
  have hhits : (arrivals.flatMap (hitsOf id query.pattern)).Pairwise fun h h' => h.now ≤ h'.now := by
    rw [List.pairwise_flatMap]
    constructor
    · intro a _
      exact List.pairwise_of_forall_mem_list fun h hh h' hh' => by
        rw [(mem_hitsOf.1 hh).2.1, (mem_hitsOf.1 hh').2.1]
    · refine (List.pairwise_map.1 hsorted).imp fun hle h hh h' hh' => ?_
      rw [(mem_hitsOf.1 hh).2.1, (mem_hitsOf.1 hh').2.1]
      exact hle
  rw [Modifiers.mem_sent, Modifiers.mem_sent]
  simp only [hserved.mem_iff hserved' hhits]

/-- Two lists of events that are the same to every query, but for the order of the solutions
and how often they are delivered. -/
structure Agree (es es' : List Event) : Prop where
  arrivals : ∀ id, arrivals (since id es') = arrivals (since id es)
  delivered : ∀ id s, s ∈ deliveries id es ↔ s ∈ deliveries id es'
  recent : ∀ id s, s ∈ deliveries id (since id es) ↔ s ∈ deliveries id (since id es')

/-- For one more event only what has been delivered since the last registration matters. -/
theorem Agree.concat {es' : List Event} {e' : Event} (h : Agree es es')
    (harrival : e'.arrival? = e.arrival?) (hasked : ∀ id, e'.asked? id = e.asked? id)
    (hquiet : ∀ id query, e.asked? id = some query → sentTo id e.log = [] ∧ sentTo id e'.log = [])
    (hrecent : ∀ id, e.asked? id = none → ∀ s, s ∈ deliveries id (since id (es ++ [e])) ↔
      s ∈ deliveries id (since id (es' ++ [e']))) : Agree (es ++ [e]) (es' ++ [e']) := by
  have hrecent' : ∀ id s, s ∈ deliveries id (since id (es ++ [e])) ↔
      s ∈ deliveries id (since id (es' ++ [e'])) := by
    intro id s
    cases he : e.asked? id with
    | none => exact hrecent id he s
    | some query =>
      rw [since_concat_of_some he, since_concat_of_some ((hasked id).trans he)]
  refine ⟨fun id => ?_, fun id s => ?_, hrecent'⟩
  · cases he : e.asked? id with
    | some query => rw [since_concat_of_some he, since_concat_of_some ((hasked id).trans he)]
    | none =>
      rw [since_concat_of_none he, since_concat_of_none ((hasked id).trans he), arrivals_append,
        arrivals_append, arrivals_singleton, arrivals_singleton, h.arrivals, harrival]
  · -- What the event delivers is recent in both runs, or it is nothing.
    have hlast : ∀ {l : List Event} {e₁ : Event}, e₁.asked? id = none → s ∈ sentTo id e₁.log →
        s ∈ deliveries id (since id (l ++ [e₁])) := by
      intro l e₁ he hs
      rw [since_concat_of_none he, deliveries_append, deliveries_singleton]
      exact List.mem_append_right _ hs
    have hold : ∀ {l : List Event} {e₁ : Event}, s ∈ deliveries id (l ++ [e₁]) ↔
        s ∈ deliveries id l ∨ s ∈ sentTo id e₁.log := by
      intro l e₁
      rw [deliveries_append, deliveries_singleton, List.mem_append]
    cases he : e.asked? id with
    | some query =>
      obtain ⟨hnone, hnone'⟩ := hquiet id query he
      rw [hold, hold, hnone, hnone', h.delivered]
    | none =>
      constructor
      · intro hs
        rcases hold.1 hs with hs | hs
        · exact hold.2 (.inl ((h.delivered id s).1 hs))
        · exact deliveries_since_subset id _ ((hrecent' id s).1 (hlast he hs))
      · intro hs
        rcases hold.1 hs with hs | hs
        · exact hold.2 (.inl ((h.delivered id s).2 hs))
        · exact deliveries_since_subset id _ ((hrecent' id s).2 (hlast ((hasked id).trans he) hs))

/-- Every registered query has been hit and been sent solutions by the events since its
registration. -/
def Accounted (x : QueryIndex) (now : Nat) (es : List Event) : Prop :=
  ∀ id query, x.asked? id = some query → x.Serving (.upTo now) id query
    ((arrivals (since id es)).flatMap (hitsOf id query.pattern)) (deliveries id (since id es))

theorem Accounted.followed {x : QueryIndex} (h : x.Accounted now es) : x.Followed now :=
  fun id query hasked hactive => ⟨_, (h id query hasked).follows hactive⟩

theorem accounted_run (hsorted : (ops.map Prod.fst).Pairwise (· ≤ ·)) (hnow : ∀ o ∈ ops, o.1 ≤ now) :
    ((Watched.new c).run ops).2.index.Accounted now ((Watched.new c).events ops) :=
  fun _ _ hasked => serving_run hsorted hnow hasked

/-- One operation more, and the two runs still agree. -/
theorem agree_next {v w : Watched} {es' : List Event} (h : Lockstep v w) (hagree : Agree es es')
    (hop : op.Undemanding) (hv : v.index.Followed now) (hw : w.index.Followed now)
    (hv' : (v.next now op).index.Accounted now (es ++ [v.event now op]))
    (hw' : (w.next now op).index.Accounted now (es' ++ [w.event now op]))
    (hs : (v.next now op).index.joins.strategy = .symmetric)
    (hs' : (w.next now op).index.joins.strategy = .caching)
    (hsorted : ((es ++ [v.event now op]).map Event.now).Pairwise (· ≤ ·)) :
    Lockstep (v.next now op) (w.next now op) ∧
      Agree (es ++ [v.event now op]) (es' ++ [w.event now op]) := by
  obtain ⟨hnext, hasked⟩ := lockstep_next h hv hw hop
  refine ⟨hnext, hagree.concat rfl hasked (fun id query he => ?_) fun id he s => ?_⟩
  · exact ⟨sentTo_of_asked? he, sentTo_of_asked? ((hasked id).trans he)⟩
  · have he' := (hasked id).trans he
    have harrivals : arrivals (since id (es' ++ [w.event now op])) =
        arrivals (since id (es ++ [v.event now op])) := by
      rw [since_concat_of_none he, since_concat_of_none he', arrivals_append, arrivals_append,
        hagree.arrivals]
      rfl
    by_cases hidle : id ∉ (v.next now op).index.active ∨ (v.next now op).index.asked? id = none
    · have hidle' : id ∉ (w.next now op).index.active ∨ (w.next now op).index.asked? id = none := by
        rw [hnext.alike.active, hnext.alike.asked]
        exact hidle
      rw [since_concat_of_none he, since_concat_of_none he', deliveries_append, deliveries_append,
        deliveries_singleton, deliveries_singleton, silent h.left hidle, silent h.right hidle',
        List.append_nil, List.append_nil]
      exact hagree.recent id s
    · rw [not_or, not_not] at hidle
      obtain ⟨hactive, hregistered⟩ := hidle
      obtain ⟨query, hquery⟩ := Option.ne_none_iff_exists'.1 hregistered
      have hserving' := hw' id query ((hnext.alike.asked id).trans hquery)
      rw [harrivals] at hserving'
      have hrecent : (since id (es ++ [v.event now op])).Sublist (es ++ [v.event now op]) :=
        (List.rtakeWhile_suffix _ _).sublist
      exact mem_sent_iff (hnext.left.inert.plain id query hquery) (hv' id query hquery) hserving' hs
        hs' hactive ((hnext.alike.active id).2 hactive) (sorted_arrivals (hsorted.sublist (hrecent.map _)))

/-- Operations that register undemanding queries keep the two runs in lockstep, and they are the
same to every query. -/
theorem agree_run (hc : c.maxQueries = none) (hops : ∀ o ∈ ops, o.2.Undemanding)
    (hsorted : (ops.map Prod.fst).Pairwise (· ≤ ·)) :
    Lockstep ((Watched.new { c with joinStrategy := .symmetric }).run ops).2
        ((Watched.new { c with joinStrategy := .caching }).run ops).2 ∧
      Agree ((Watched.new { c with joinStrategy := .symmetric }).events ops)
        ((Watched.new { c with joinStrategy := .caching }).events ops) := by
  induction ops using List.reverseRecOn with
  | nil =>
    have hstored : ∀ s id, (Watched.new { c with joinStrategy := s }).index.stored id =
        fun _ _ => ⊥ := fun s id => stored_of_none (consistent_new _) rfl
    exact ⟨⟨quiet_new hc, quiet_new hc, ⟨fun _ => rfl, fun _ => Iff.rfl, fun id =>
      (hstored .caching id).trans (hstored .symmetric id).symm⟩, rfl, rfl⟩,
      ⟨fun _ => rfl, fun _ _ => Iff.rfl, fun _ _ => Iff.rfl⟩⟩
  | append_singleton ops o ih =>
    have hsorted' := hsorted
    rw [List.map_append, List.pairwise_append] at hsorted'
    obtain ⟨hbefore, -, hlater⟩ := hsorted'
    have hlast : ∀ o' ∈ ops, o'.1 ≤ o.1 := fun o' ho =>
      hlater o'.1 (List.mem_map_of_mem ho) o.1 List.mem_cons_self
    have hnow : ∀ o' ∈ ops ++ [o], o'.1 ≤ o.1 := by
      intro o' ho
      rcases List.mem_append.1 ho with ho | ho
      · exact hlast o' ho
      · rw [List.mem_singleton.1 ho]
    obtain ⟨hlock, hagree⟩ := ih (fun o ho => hops o (List.mem_append_left _ ho)) hbefore
    have haccounted := accounted_run (c := { c with joinStrategy := .symmetric }) hsorted hnow
    have haccounted' := accounted_run (c := { c with joinStrategy := .caching }) hsorted hnow
    have hstrategy : ∀ s, ((Watched.new { c with joinStrategy := s }).run
        (ops ++ [o])).2.index.joins.strategy = s := fun s =>
      (history_run _ _).strategy
    have hsymmetric := hstrategy .symmetric
    have hcaching := hstrategy .caching
    rw [← map_now_events (Watched.new { c with joinStrategy := .symmetric })] at hsorted
    rw [run_concat] at haccounted haccounted' hsymmetric hcaching ⊢
    rw [events_concat] at haccounted haccounted' hsorted ⊢
    rw [run_concat, events_concat]
    exact agree_next hlock hagree (hops o (List.mem_append_right _ List.mem_cons_self))
      (accounted_run hbefore hlast).followed (accounted_run hbefore hlast).followed
      haccounted haccounted' hsymmetric hcaching hsorted

/-- After the same operations an index with the symmetric join and one with the caching join have
delivered the same solutions, to every query from its last registration on and all in all, and
the one stores the same matches as the other, with the same expirations, provided that there is
no bound on the queries, that these take solutions as they come, and that the subscribers
do not react. -/
theorem strategies_agree (hc : c.maxQueries = none) (hops : ∀ o ∈ ops, o.2.Undemanding)
    (hsorted : (ops.map Prod.fst).Pairwise (· ≤ ·)) :
    let v := Watched.new { c with joinStrategy := .symmetric }
    let w := Watched.new { c with joinStrategy := .caching }
    (∀ id s, s ∈ deliveries id (v.events ops) ↔ s ∈ deliveries id (w.events ops)) ∧
      (∀ id s, s ∈ deliveries id (since id (v.events ops)) ↔
        s ∈ deliveries id (since id (w.events ops))) ∧
      ∃ store cache, (v.run ops).2.index.joins = .symmetric store ∧
        (w.run ops).2.index.joins = .caching cache ∧
        ∀ id i m e, (∃ n, store.get? n = some ⟨id, .single i, m, e⟩) ↔
          ∃ n, cache.get? n = some ⟨id, i, m, e⟩ := by
  intro v w
  obtain ⟨hlock, hagree⟩ := agree_run hc hops hsorted
  obtain ⟨store, hstore⟩ := exists_store
    (history_run v ops).strategy
  obtain ⟨cache, hcache⟩ := exists_cache
    (history_run w ops).strategy
  refine ⟨hagree.delivered, hagree.recent, store, cache, hstore, hcache, fun id i m e => ?_⟩
  have hsame := congrFun (congrFun (hlock.alike.stored id) i) m
  unfold stored at hsame
  rw [hstore, hcache] at hsame
  have hheld := exists_held_iff (p := ⟨id, .single i, m, e⟩) hlock.left.consistent.joins
  have hheld' := exists_held_iff (p := ⟨id, .single i, m, e⟩) hlock.right.consistent.joins
  rw [hstore] at hheld
  rw [hcache] at hheld'
  simp only [held_caching_single] at hheld'
  exact hheld.trans ((hsame.congr_left).symm.trans hheld'.symm)

/-- With the caching join, too, a loop is delivered with the expiration of its later copy. -/
theorem strategies_agree_loop : (⟨1, .bindings allAtX, .instant 2000⟩ : Solution) ∈
    deliveries 1 ((Watched.new { joinStrategy := .caching }).events (looping 1 2)) := by
  have hops : ∀ o ∈ looping 1 2, o.2.Undemanding := by
    intro o ho
    rcases List.mem_cons.1 ho with ho | ho
    · rw [ho]
      exact ⟨Modifiers.plain_default, rfl⟩
    · simp only [List.mem_cons, List.not_mem_nil, or_false] at ho
      rcases ho with ho | ho
      · rw [ho]
        trivial
      · rw [ho]
        trivial
  have hagree := strategies_agree (c := {}) rfl hops (by decide)
  exact (hagree.1 1 _).1 (by decide +kernel)

end QueryIndex

end StandingQuery
