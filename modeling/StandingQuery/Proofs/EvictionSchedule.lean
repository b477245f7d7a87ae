import StandingQuery.Proofs.Strategies

/-! When evictions happen makes no difference.

An index that has just evicted what is due and one that still stores it are `Even`: they
have the same queries, the same of them active, and what is still valid of what they store
is given by the same matches. If no query ever expires and all of them take solutions as
they come, every operation keeps two indexes even and is answered by both with the same
result and, up to their order, the same solutions (`twins_next`), and an eviction of one of
them keeps them even, too (`twins_evict`). So the evictions can be left out of a history, or
put in anywhere (`evictions_unobservable`). -/
namespace StandingQuery
open Std

namespace Registry

variable {r r' : Registry}

theorem sorted_ids (r : Registry) : r.ids.SortedLT := by
  refine List.Pairwise.sortedLT (ExtTreeMap.ordered_keys.imp fun h => ?_)
  exact Nat.compare_eq_lt.1 h

theorem ids_congr (h : ∀ id, (r'.get? id).isSome = (r.get? id).isSome) : r'.ids = r.ids :=
  List.SortedLT.eq_of_mem_iff (sorted_ids r') (sorted_ids r) fun id => by
    rw [mem_ids, mem_ids, h]

theorem size_eq (r : Registry) : r.size = r.ids.length := ExtTreeMap.length_keys.symm

theorem size_congr (h : ∀ id, (r'.get? id).isSome = (r.get? id).isSome) : r'.size = r.size := by
  rw [size_eq, size_eq, ids_congr h]

end Registry

namespace QueryIndex
open JoinState Watched GraphPattern

variable {x y x' y' : QueryIndex} {id i : QueryId} {query : Query} {q : Registered}
variable {τ now ttl : Nat} {quotas quotas' : ExtTreeMap QueryId Nat} {t : Tuple} {a : Arrival}
variable {L : Book}

/-- No query expires. -/
def Endless (x : QueryIndex) : Prop := ∀ id q, x.settled? id = some q → q.expiration = .never

/-- The same queries, the same of them active, and lives that agree on what is valid at `now`. -/
structure Even (now : Nat) (x y : QueryIndex) : Prop where
  settings : y.settings = x.settings
  patterns : y.patterns = x.patterns
  settled : ∀ id, y.settled? id = x.settled? id
  active : ∀ id, id ∈ y.active ↔ id ∈ x.active
  followed : ∀ id query, x.asked? id = some query → id ∈ x.active →
    ∃ L, x.Follows (.upTo now) id query L ∧ y.Follows (.upTo now) id query L

theorem Even.asked (h : Even now x y) (id : QueryId) : y.asked? id = x.asked? id := by
  rw [asked?_eq, asked?_eq, h.settled]

theorem Even.isSome (h : Even now x y) (id : QueryId) :
    (y.registry.get? id).isSome = (x.registry.get? id).isSome := by
  rw [isSome_get?, isSome_get?, h.settled]

theorem Even.mono (h : Even τ x y) (hle : τ ≤ now) : Even now x y where
  settings := h.settings
  patterns := h.patterns
  settled := h.settled
  active := h.active
  followed id query hasked hactive := by
    obtain ⟨L, hx, hy⟩ := h.followed id query hasked hactive
    exact ⟨L, hx.mono (Life.upTo_mono hle), hy.mono (Life.upTo_mono hle)⟩

/-- Whatever is done to other queries, those that are registered and active stay followed. -/
theorem Even.followed_of_unmoved (h : Even now x y)
    (hmoved : ∀ id query, x'.asked? id = some query → id ∈ x'.active →
      Unmoved id x x' ∧ Unmoved id y y') (id : QueryId) (query : Query)
    (hasked : x'.asked? id = some query) (hactive : id ∈ x'.active) :
    ∃ L, x'.Follows (.upTo now) id query L ∧ y'.Follows (.upTo now) id query L := by
  obtain ⟨hx, hy⟩ := hmoved id query hasked hactive
  obtain ⟨L, hf, hf'⟩ := h.followed id query (hx.asked ▸ hasked) (hx.active.1 hactive)
  exact ⟨L, hf.unmoved hx, hf'.unmoved hy⟩

/-! ### Registering, unregistering, renewing, clearing -/

theorem even_register {r : Registration} (h : Even now x y) (hcx : x.Consistent [])
    (hcy : y.Consistent []) (hx : x.register r now = .ok x') (hy : y.register r now = .ok y') :
    Even now (x'.activate r.id) (y'.activate r.id) := by
  have hsettled := fun id => settled?_register hx id
  have hsettled' := fun id => settled?_register hy id
  have hmoved : ∀ id, r.id ≠ id → Unmoved id x (x'.activate r.id) := fun _ => unmoved_register hx
  have hmoved' : ∀ id, r.id ≠ id → Unmoved id y (y'.activate r.id) := fun _ => unmoved_register hy
  have hnew := (serving_register hcx hx).mono (bot_le (a := Life.upTo now))
  have hnew' := (serving_register hcy hy).mono (bot_le (a := Life.upTo now))
  have hentry : (y.entry r now).settled = (x.entry r now).settled := rfl
  have hactive : ∀ id, id ∈ (y'.activate r.id).active ↔ id ∈ (x'.activate r.id).active := by
    obtain ⟨-, hx'⟩ := register_eq_ok hx
    obtain ⟨-, hy'⟩ := register_eq_ok hy
    intro id
    rw [hx', hy']
    unfold activate
    dsimp only
    rw [ExtTreeSet.mem_insert, ExtTreeSet.mem_insert, h.active]
  constructor
  · obtain ⟨-, rfl⟩ := register_eq_ok hx
    obtain ⟨-, rfl⟩ := register_eq_ok hy
    exact h.settings
  · obtain ⟨-, rfl⟩ := register_eq_ok hx
    obtain ⟨-, rfl⟩ := register_eq_ok hy
    exact congrArg (·.insertQuery r.id r.query.pattern) h.patterns
  · intro id
    rw [hsettled, hsettled', hentry, h.settled]
  · exact hactive
  · intro id query hasked hin
    by_cases hid : r.id = id
    · subst hid
      have hf := hnew.follows hin
      have hquery : query = r.query := by
        rw [hf.asked] at hasked
        exact (Option.some.inj hasked).symm
      rw [hquery]
      exact ⟨_, hf, hnew'.follows ((hactive r.id).2 hin)⟩
    · rw [(hmoved id hid).asked] at hasked
      obtain ⟨L, hf, hf'⟩ := h.followed id query hasked ((hmoved id hid).active.1 hin)
      exact ⟨L, hf.unmoved (hmoved id hid), hf'.unmoved (hmoved' id hid)⟩

theorem patterns_unregister_eq (x : QueryIndex) (i : QueryId) : (x.unregister i).2.patterns =
    match x.asked? i with
    | none => x.patterns
    | some query => x.patterns.removeQuery i query.pattern := by
  unfold asked?
  cases hq : x.registry.get? i with
  | none => rw [unregister_none hq, Option.map_none]
  | some q =>
    rw [unregister_eq hq, Option.map_some]
    rfl

theorem even_unregister (h : Even now x y) (hx : x.Consistent []) (hy : y.Consistent [])
    (i : QueryId) : Even now (x.unregister i).2 (y.unregister i).2 where
  settings := by rw [settings_unregister, settings_unregister, h.settings]
  patterns := by rw [patterns_unregister_eq, patterns_unregister_eq, h.asked, h.patterns]
  settled id := by rw [settled?_unregister, settled?_unregister, h.settled]
  active id := by rw [mem_active_unregister_iff, mem_active_unregister_iff, h.active, h.settled]
  followed := h.followed_of_unmoved fun id query hasked _ => by
    have hid : i ≠ id := by
      intro hi
      rw [asked?_eq, settled?_unregister, if_pos hi] at hasked
      cases hasked
    exact ⟨unmoved_unregister hx hid, unmoved_unregister hy hid⟩

theorem patterns_renew (x : QueryIndex) (i : QueryId) (ttl now : Nat) :
    (x.renew i ttl now).2.patterns = x.patterns := by
  rcases renew_cases x i ttl now with hsame | ⟨q, -, -, hrenewed⟩
  · rw [hsame]
  · rw [hrenewed]

theorem even_renew (h : Even now x y) (hx : x.Consistent []) (hy : y.Consistent []) (i : QueryId)
    (ttl : Nat) : Even now (x.renew i ttl now).2 (y.renew i ttl now).2 where
  settings := by rw [settings_renew, settings_renew, h.settings]
  patterns := by rw [patterns_renew, patterns_renew, h.patterns]
  settled id := by simp only [settled?_renew hx, settled?_renew hy, h.active, h.settled]
  active id := by
    rw [(unmoved_renew hx i ttl now id).active, (unmoved_renew hy i ttl now id).active, h.active]
  followed := h.followed_of_unmoved fun id _ _ _ =>
    ⟨unmoved_renew hx i ttl now id, unmoved_renew hy i ttl now id⟩

theorem renew_found (x : QueryIndex) (i : QueryId) (ttl now : Nat) :
    (x.renew i ttl now).1 = ((x.registry.get? i).isSome && x.active.contains i) := by
  unfold renew
  cases x.registry.get? i with
  | none => rfl
  | some q => cases x.active.contains i <;> rfl

theorem even_deactivate (h : Even now x y) (i : QueryId) :
    Even now (x.deactivate i) (y.deactivate i) where
  settings := h.settings
  patterns := h.patterns
  settled := h.settled
  active id := by
    unfold deactivate
    dsimp only
    rw [ExtTreeSet.mem_erase, ExtTreeSet.mem_erase, h.active]
  followed := h.followed_of_unmoved fun id _ _ hin => by
    have hne : i ≠ id := by
      intro hi
      subst hi
      simp [deactivate] at hin
    have hstays : ∀ z : QueryIndex, id ∈ (z.deactivate i).active ↔ id ∈ z.active := by
      intro z
      unfold deactivate
      dsimp only
      rw [ExtTreeSet.mem_erase, ne_eq, Std.compare_eq_iff_eq]
      exact and_iff_right hne
    exact ⟨⟨rfl, hstays x, rfl, fun _ _ => rfl⟩, ⟨rfl, hstays y, rfl, fun _ _ => rfl⟩⟩

theorem even_clear (h : Even now x y) : Even now x.clear y.clear where
  settings := by
    have hkept : ∀ z : QueryIndex, z.clear.settings = z.settings := fun z =>
      congrArg (Settings.mk _ _) strategy_clear
    rw [hkept, hkept, h.settings]
  patterns := rfl
  settled id := by rw [settled?_clear, settled?_clear]
  active id := by
    rw [mem_active_clear, mem_active_clear, h.active, ← settled?_eq_none, ← settled?_eq_none,
      h.settled]
  followed id query hasked := by
    rw [asked?_eq, settled?_clear] at hasked
    cases hasked

/-! ### Evicting on one side -/

/-- If no query is due, an eviction removes nothing but stored partial solutions. -/
theorem foldl_evict_solutions (due : List Mortal) (hdue : ∀ id, .query id ∉ due)
    (s : EvictionReport × QueryIndex) :
    ∃ joins, (due.foldl evict s).2 = { s.2 with joins } := by
  induction due generalizing s with
  | nil => exact ⟨s.2.joins, rfl⟩
  | cons e due ih =>
    cases e with
    | query id => exact absurd List.mem_cons_self (hdue id)
    | solution n =>
      obtain ⟨joins, hrest⟩ := ih (fun id hid => hdue id (List.mem_cons_of_mem _ hid))
        (evict s (.solution n))
      refine ⟨joins, hrest.trans ?_⟩
      rw [evict_solution]

theorem removeExpired_endless (hc : x.Consistent []) (h : x.Endless) (now : Nat) :
    ∃ joins expirations, (x.removeExpired now).2 = { x with joins, expirations } := by
  have hdue : ∀ id, .query id ∉ x.expirations.due now := by
    intro id hid
    obtain ⟨t, ht, -⟩ := (Expirations.mem_due hc.expirations).1 hid
    rw [hc.tracked_query] at ht
    obtain ⟨q, hq, ht⟩ := Option.bind_eq_some_iff.1 ht
    have hnever := h id q.settled (Option.map_eq_some_iff.2 ⟨q, hq, rfl⟩)
    rw [show q.expiration = .never from hnever] at ht
    cases ht
  obtain ⟨joins, hrest⟩ := foldl_evict_solutions (x.expirations.due now) hdue
    ({}, { x with expirations := (x.expirations.removeExpired now).2 })
  exact ⟨joins, _, hrest⟩

theorem even_evict (h : Even now x y) (hc : x.Consistent []) (hend : x.Endless) :
    Even now (x.removeExpired now).2 y := by
  have hfollows : ∀ id query L, x.Follows (.upTo now) id query L →
      id ∈ (x.removeExpired now).2.active →
      (x.removeExpired now).2.Follows (.upTo now) id query L := fun id query L hf =>
    follows_removeExpired hc hf le_rfl
  have hsettings := settings_removeExpired x now
  obtain ⟨joins, expirations, hx⟩ := removeExpired_endless hc hend now
  rw [hx] at hfollows hsettings ⊢
  refine ⟨h.settings.trans hsettings.symm, h.patterns, h.settled, h.active,
    fun id query hasked hactive => ?_⟩
  obtain ⟨L, hf, hf'⟩ := h.followed id query hasked hactive
  exact ⟨L, hfollows id query L hf hactive, hf'⟩

/-! ### Adding -/

/-- Two additions of the same tuple under way. -/
structure EvenAdditions (now : Nat) (v w : Addition Inbox) : Prop where
  left : Calm v
  right : Calm w
  even : Even now v.index w.index
  changed : w.changed = v.changed
  sent : ∀ id, (sentTo id w.state.2).Perm (sentTo id v.state.2)

section Visits

variable {v w : Addition Inbox} {ref : PatternRef}

/-- A match that both find is stored by both or by neither, and completes the same solutions. -/
theorem even_meet {r : Registered} {b : Binding} (h : EvenAdditions a.now v w)
    (hv : Meets v ref a query L q b) (hw : Meets w ref a query L r b)
    (halive : .instant a.now < a.expiration) :
    EvenAdditions a.now (visit Watched.receive a.tuple a.expiration a.now v ref)
      (visit Watched.receive a.tuple a.expiration a.now w ref) := by
  obtain ⟨hcalm, hactive⟩ := calm_visit h.left a.tuple a.expiration a.now ref
  obtain ⟨hcalm', hactive'⟩ := calm_visit h.right a.tuple a.expiration a.now ref
  have hin : ref.query ∈ (visit Watched.receive a.tuple a.expiration a.now v ref).index.active :=
    hactive ▸ hv.follows.active
  have hin' : ref.query ∈ (visit Watched.receive a.tuple a.expiration a.now w ref).index.active :=
    hactive' ▸ hw.follows.active
  have hothers : ∀ {u : Addition Inbox}, Calm u → ∀ id, ref.query ≠ id →
      Unmoved id u.index (visit Watched.receive a.tuple a.expiration a.now u ref).index ∧
        sentTo id (visit Watched.receive a.tuple a.expiration a.now u ref).state.2 =
          sentTo id u.state.2 := fun hu id hid =>
    idle_visit hu.consistent a.tuple a.expiration a.now ref (.inl hid)
  refine ⟨hcalm, hcalm', ⟨?_, ?_, fun id => ?_, fun id => ?_, fun id query' hasked hid => ?_⟩, ?_,
    fun id => ?_⟩
  · rw [settings_visit h.left.consistent, settings_visit h.right.consistent, h.even.settings]
  · rw [patterns_visit, patterns_visit, h.even.patterns]
  · rw [settled?_visit h.left.consistent, settled?_visit h.right.consistent, h.even.settled]
  · rw [hactive, hactive', h.even.active]
  · by_cases hmine : ref.query = id
    · subst hmine
      have hsame : query' = query := by
        rw [asked?_visit h.left.consistent, hv.follows.asked] at hasked
        exact (Option.some.inj hasked).symm
      rw [hsame]
      exact ⟨_, hv.follows_visit hin, hw.follows_visit hin'⟩
    · rw [asked?_visit h.left.consistent] at hasked
      obtain ⟨L', hf, hf'⟩ := h.even.followed id query' hasked (hactive ▸ hid)
      exact ⟨L', hf.unmoved (hothers h.left id hmine).1, hf'.unmoved (hothers h.right id hmine).1⟩
  · rw [visit_match hv.failed hv.registered hv.follows.active hv.matched,
      visit_match hw.failed hw.registered hw.follows.active hw.matched]
    dsimp only
    rw [h.changed, Bool.eq_iff_iff.2 ((changed_advance_iff hw.takes hw.faithful halive).trans
      (changed_advance_iff hv.takes hv.faithful halive).symm)]
  · by_cases hmine : ref.query = id
    · subst hmine
      have hplain := h.left.inert.plain _ _ hv.follows.asked
      have hstrategy : w.index.joins.strategy = v.index.joins.strategy :=
        congrArg Settings.strategy h.even.settings
      obtain ⟨fresh, hnodup, hfresh, hsends⟩ := hv.exists_fresh
      obtain ⟨fresh', hnodup', hfresh', hsends'⟩ := hw.exists_fresh
      obtain ⟨new, hlog, -, hnew⟩ := hsends hplain
      obtain ⟨new', hlog', -, hnew'⟩ := hsends' hplain
      have hperm : fresh'.Perm fresh := by
        refine (List.perm_ext_iff_of_nodup (hnodup'.imp fun hne he => hne (congrArg _ he))
          (hnodup.imp fun hne he => hne (congrArg _ he))).2 fun c => ?_
        rw [hfresh, hfresh', hstrategy]
      rw [hlog, hlog', hnew hin, hnew' hin']
      exact (h.sent ref.query).append ((hperm.filter _).map _)
    · rw [(hothers h.left id hmine).2, (hothers h.right id hmine).2]
      exact h.sent id

theorem even_visit (h : EvenAdditions a.now v w) (halive : .instant a.now < a.expiration)
    (ref : PatternRef) :
    EvenAdditions a.now (visit Watched.receive a.tuple a.expiration a.now v ref)
      (visit Watched.receive a.tuple a.expiration a.now w ref) := by
  have hsame : ∀ {v' w' : Addition Inbox}, v' = v → w' = w → EvenAdditions a.now v' w' := by
    intro v' w' hv hw
    rw [hv, hw]
    exact h
  have hsettled := h.even.settled ref.query
  unfold settled? at hsettled
  cases hq : v.index.registry.get? ref.query with
  | none =>
    rw [hq, Option.map_none, Option.map_eq_none_iff] at hsettled
    exact hsame (visit_idle (.inl hq)) (visit_idle (.inl hsettled))
  | some q =>
    rw [hq, Option.map_some] at hsettled
    obtain ⟨r, hr, hqr⟩ := Option.map_eq_some_iff.1 hsettled
    have hpattern : r.pattern = q.pattern := Registered.pattern_of_settled hqr
    by_cases hactive : ref.query ∈ v.index.active
    · cases hb : q.pattern[ref.pattern]?.bind (·.match? a.tuple) with
      | none => exact hsame (visit_no_match hq hb) (visit_no_match hr (hpattern ▸ hb))
      | some b =>
        obtain ⟨L, hf, hf'⟩ := h.even.followed ref.query q.asked
          (asked?_eq_some.2 ⟨q, hq, rfl⟩) hactive
        exact even_meet h ⟨h.left.consistent, h.left.failed, hf, hq, hb⟩
          ⟨h.right.consistent, h.right.failed, hf', hr, hpattern ▸ hb⟩ halive
    · exact hsame (visit_idle (.inr hactive)) (visit_idle (.inr (mt (h.even.active _).1 hactive)))

theorem even_foldl_visit (refs : List PatternRef) (h : EvenAdditions a.now v w)
    (halive : .instant a.now < a.expiration) :
    EvenAdditions a.now (refs.foldl (visit Watched.receive a.tuple a.expiration a.now) v)
      (refs.foldl (visit Watched.receive a.tuple a.expiration a.now) w) := by
  induction refs generalizing v w with
  | nil => exact h
  | cons ref refs ih => exact ih (even_visit h halive ref)

end Visits

/-- A tuple is taken in by both with the same result, and completes the same solutions. -/
theorem even_add (h : Even now x y) (hx : x.Consistent []) (hy : y.Consistent [])
    (hix : x.Inert quotas) (hiy : y.Inert quotas') (halive : .instant now < Expiration.ofTtl now ttl)
    (t : Tuple) :
    Even now (x.add Watched.receive t ttl now (quotas, [])).index
        (y.add Watched.receive t ttl now (quotas', [])).index ∧
      (y.add Watched.receive t ttl now (quotas', [])).changed =
        (x.add Watched.receive t ttl now (quotas, [])).changed ∧
      ∀ id, (sentTo id (y.add Watched.receive t ttl now (quotas', [])).state.2).Perm
        (sentTo id (x.add Watched.receive t ttl now (quotas, [])).state.2) := by
  have harity : y.arity = x.arity := congrArg Settings.arity h.settings
  by_cases hsame : t.arity = x.arity
  · have hstart : EvenAdditions now { index := x, state := ((quotas, []) : Inbox) }
        { index := y, state := ((quotas', []) : Inbox) } :=
      ⟨⟨rfl, hx, hix, rfl⟩, ⟨rfl, hy, hiy, rfl⟩, h, rfl, fun _ => .refl _⟩
    have hdone := even_foldl_visit (a := ⟨now, t, .ofTtl now ttl⟩) (x.patterns.lookup t) hstart halive
    rw [add_of_inert hx hix hsame, add_of_inert hy hiy (hsame.trans harity.symm), h.patterns]
    exact ⟨hdone.even, hdone.changed, hdone.sent⟩
  · rw [add_of_arity hsame, add_of_arity fun ht => hsame (ht.trans harity)]
    exact ⟨h, rfl, fun _ => .refl _⟩

/-! ### Histories -/

/-- The operation is an eviction. -/
def Operation.evicts : Operation → Bool
  | .removeExpired => true
  | _ => false

theorem Operation.eq_removeExpired {op : Operation} (h : op.evicts = true) : op = .removeExpired := by
  cases op with
  | removeExpired => rfl
  | register id query ttl quota => cases h
  | deactivate id => cases h
  | unregister id => cases h
  | renew id ttl => cases h
  | add t ttl => cases h
  | clear => cases h

/-- A query that the operation registers or renews never expires. -/
def Operation.Endless : Operation → Prop
  | .register _ _ ttl _ => ttl = 0
  | .renew _ ttl => ttl = 0
  | _ => True

/-- What can be seen of an operation: its answer, and what it has delivered to each query, in
whatever order. -/
structure Sight where
  now : Nat
  op : Operation
  result : Result
  sent : QueryId → Multiset Solution

def Event.sight (e : Event) : Sight := ⟨e.now, e.op, e.result, fun id => sentTo id e.log⟩

/-- What can be seen of a history if one does not look at evictions. -/
def sights (es : List Event) : List Sight := (es.filter fun e => !e.op.evicts).map Event.sight

namespace Watched

variable {v w : Watched} {op : Operation} {ops : List (Nat × Operation)} {c : Config}

/-- Two indexes that cannot be told apart. -/
structure Twins (now : Nat) (v w : Watched) : Prop where
  left : v.index.Consistent []
  right : w.index.Consistent []
  inert : v.index.Inert v.quotas
  inert' : w.index.Inert w.quotas
  endless : v.index.Endless
  even : Even now v.index w.index
  known : w.known = v.known

theorem twins_new (c : Config) : Twins 0 (.new c) (.new c) where
  left := consistent_new c
  right := consistent_new c
  inert := ⟨fun _ _ h => (Option.some_ne_none _ h.symm).elim, fun _ => ExtTreeMap.getElem?_empty⟩
  inert' := ⟨fun _ _ h => (Option.some_ne_none _ h.symm).elim, fun _ => ExtTreeMap.getElem?_empty⟩
  endless _ _ h := (Option.some_ne_none _ h.symm).elim
  even := ⟨rfl, rfl, fun _ => rfl, fun _ => Iff.rfl, fun _ _ h => (Option.some_ne_none _ h.symm).elim⟩
  known := rfl

theorem endless_next (hc : w.index.Consistent []) (h : w.index.Endless) (hop : op.Endless)
    (hi : w.index.Inert w.quotas) (now : Nat) : (w.next now op).index.Endless := by
  intro id q hq
  unfold next at hq
  cases op with
  | register i query ttl quota =>
    rcases perform_register w now i query ttl quota with ⟨e, hp⟩ | ⟨analysis, index, hv, hr, hp⟩
    · rw [hp] at hq
      exact h id q hq
    · rw [hp] at hq
      dsimp only at hq
      rw [settled?_register hr] at hq
      split at hq
      · cases hq
        have httl : ttl = 0 := hop
        subst httl
        rfl
      · exact h id q hq
  | deactivate i =>
    rcases perform_deactivate w now i with hp | hp
    · rw [hp] at hq
      exact h id q hq
    · rw [hp] at hq
      exact h id q hq
  | unregister i =>
    replace hq : (w.index.unregister i).2.settled? id = some q := hq
    rw [settled?_unregister] at hq
    split at hq
    · cases hq
    · exact h id q hq
  | renew i ttl =>
    replace hq : (w.index.renew i ttl now).2.settled? id = some q := hq
    rw [settled?_renew hc] at hq
    split at hq
    · obtain ⟨r, -, rfl⟩ := Option.map_eq_some_iff.1 hq
      have httl : ttl = 0 := hop
      subst httl
      rfl
    · exact h id q hq
  | add t ttl =>
    replace hq : (w.index.add receive t ttl now (w.quotas, [])).index.settled? id = some q := hq
    rw [(inert_add hc hi t ttl now).2.2] at hq
    exact h id q hq
  | removeExpired =>
    replace hq : (w.index.removeExpired now).2.settled? id = some q := hq
    rw [settled?_removeExpired hc] at hq
    exact h id q (Option.filter_eq_some_iff.1 hq).1
  | clear =>
    replace hq : w.index.clear.settled? id = some q := hq
    rw [settled?_clear] at hq
    cases hq

/-- The same operation on both, which is no eviction, is seen to do the same. -/
theorem even_next (h : Twins now v w) (hop : op.evicts = false)
    (hlong : ∀ a, op.arrival? now = some a → .instant now < a.expiration) :
    Even now (v.next now op).index (w.next now op).index ∧
      (w.next now op).known = (v.next now op).known ∧
      (w.event now op).sight = (v.event now op).sight := by
  unfold next event Event.sight
  cases op with
  | register i query ttl quota =>
    have harity : w.index.arity = v.index.arity := congrArg Settings.arity h.even.settings
    have hbound : w.index.registry.maxQueries = v.index.registry.maxQueries :=
      congrArg Settings.maxQueries h.even.settings
    have hrefusal : w.index.registry.refusal? i = v.index.registry.refusal? i :=
      Registry.refusal?_congr hbound (h.even.isSome i) fun _ => Registry.size_congr h.even.isSome
    rcases perform_register_alike harity hrefusal now query ttl quota with
      ⟨e, hp, hp'⟩ | ⟨analysis, x, y, hr, hr', hp, hp'⟩
    · rw [hp, hp']
      exact ⟨h.even, h.known, rfl⟩
    · rw [hp, hp']
      exact ⟨even_register h.even h.left h.right hr hr', congrArg (·.insert i) h.known, rfl⟩
  | deactivate i =>
    rw [perform_deactivate_eq, perform_deactivate_eq, h.known]
    split
    · exact ⟨even_deactivate h.even i, rfl, rfl⟩
    · exact ⟨h.even, h.known, rfl⟩
  | unregister i =>
    have hfound : (w.index.unregister i).1 = (v.index.unregister i).1 := by
      rw [unregister_found, unregister_found, h.even.isSome]
    exact ⟨even_unregister h.even h.left h.right i, h.known,
      congrArg (fun b => Sight.mk now (.unregister i) (.flag b) fun id => ↑(sentTo id [])) hfound⟩
  | renew i ttl =>
    have hfound : (w.index.renew i ttl now).1 = (v.index.renew i ttl now).1 := by
      rw [renew_found, renew_found, h.even.isSome, contains_congr (h.even.active i)]
    exact ⟨even_renew h.even h.left h.right i ttl, h.known,
      congrArg (fun b => Sight.mk now (.renew i ttl) (.flag b) fun id => ↑(sentTo id [])) hfound⟩
  | add t ttl =>
    obtain ⟨heven, hchanged, hsent⟩ := even_add h.even h.left h.right h.inert h.inert'
      (hlong _ rfl) t
    refine ⟨heven, h.known, ?_⟩
    show Sight.mk now _ (.flag _) _ = Sight.mk now _ (.flag _) _
    rw [hchanged]
    exact congrArg _ (funext fun id => Multiset.coe_eq_coe.2 (hsent id))
  | removeExpired => cases hop
  | clear => exact ⟨even_clear h.even, h.known, rfl⟩

theorem Twins.mono (h : Twins τ v w) (hle : τ ≤ now) : Twins now v w :=
  { h with even := h.even.mono hle }

theorem twins_next (h : Twins now v w) (hop : op.evicts = false) (hplain : op.Undemanding)
    (hend : op.Endless) (hlong : ∀ a, op.arrival? now = some a → .instant now < a.expiration) :
    Twins now (v.next now op) (w.next now op) ∧ (w.event now op).sight = (v.event now op).sight := by
  obtain ⟨heven, hknown, hsight⟩ := even_next h hop hlong
  refine ⟨?_, hsight⟩
  exact {
    left := consistent_next h.left now op
    right := consistent_next h.right now op
    inert := inert_next h.left h.inert hplain now
    inert' := inert_next h.right h.inert' hplain now
    endless := endless_next h.left h.endless hend h.inert now
    even := heven
    known := hknown }

/-- An eviction of one of them is not noticed. -/
theorem twins_evict (h : Twins now v w) : Twins now (v.next now .removeExpired) w := by
  have hplain : Operation.removeExpired.Undemanding := trivial
  have hend : Operation.removeExpired.Endless := trivial
  exact {
    left := consistent_next h.left now .removeExpired
    right := h.right
    inert := inert_next h.left h.inert hplain now
    inert' := h.inert'
    endless := endless_next h.left h.endless hend h.inert now
    even := even_evict h.even h.left h.endless
    known := h.known }

theorem sights_cons (w : Watched) (o : Nat × Operation) (ops : List (Nat × Operation)) :
    sights (w.events (o :: ops)) =
      if o.2.evicts then sights ((w.next o.1 o.2).events ops)
      else (w.event o.1 o.2).sight :: sights ((w.next o.1 o.2).events ops) := by
  have hop : (w.event o.1 o.2).op = o.2 := rfl
  unfold sights
  rw [events_cons, List.filter_cons, hop]
  cases o.2.evicts <;> rfl

/-- A history looks like the one without its evictions. -/
theorem sights_events (h : Twins τ v w) (hops : ∀ o ∈ ops, o.2.Undemanding ∧ o.2.Endless)
    (hlong : ∀ o ∈ ops, ∀ a, o.2.arrival? o.1 = some a → .instant o.1 < a.expiration)
    (hsorted : (ops.map Prod.fst).Pairwise (· ≤ ·)) (hτ : ∀ o ∈ ops, τ ≤ o.1) :
    sights (v.events ops) = sights (w.events (ops.filter fun o => !o.2.evicts)) := by
  induction ops generalizing τ v w with
  | nil => rfl
  | cons o ops ih =>
    rw [List.map_cons, List.pairwise_cons] at hsorted
    have hlater : ∀ o' ∈ ops, o.1 ≤ o'.1 := fun o' ho => hsorted.1 _ (List.mem_map_of_mem ho)
    have hrest := fun {v' w'} (h' : Twins o.1 v' w') => ih h'
      (fun o' ho => hops o' (List.mem_cons_of_mem _ ho))
      (fun o' ho => hlong o' (List.mem_cons_of_mem _ ho)) hsorted.2 hlater
    have hnow := h.mono (hτ o List.mem_cons_self)
    rw [sights_cons, List.filter_cons]
    cases hop : o.2.evicts with
    | true =>
      rw [if_pos rfl, if_neg (by simp), Operation.eq_removeExpired hop]
      exact hrest (twins_evict hnow)
    | false =>
      obtain ⟨hplain, hend⟩ := hops o List.mem_cons_self
      obtain ⟨hnext, hsame⟩ := twins_next hnow hop hplain hend (hlong o List.mem_cons_self)
      rw [if_neg (by simp), if_pos (by simp), sights_cons, hop, if_neg (by simp), hsame, hrest hnext]

end Watched

/-- Whether, when and how often there are evictions makes no difference to the answers of the other
operations and to what these deliver to each query, provided that no query expires, that all of
them take solutions as they come, that the subscribers do not react, and that no tuple has come
to its end when it is added, which only one with a lifetime too long to count can have. -/
theorem evictions_unobservable {c : Config} {ops ops' : List (Nat × Operation)}
    (hops : ∀ o ∈ ops, o.2.Undemanding ∧ o.2.Endless)
    (hlong : ∀ o ∈ ops, ∀ a, o.2.arrival? o.1 = some a → .instant o.1 < a.expiration)
    (hsorted : (ops.map Prod.fst).Pairwise (· ≤ ·)) (hsorted' : (ops'.map Prod.fst).Pairwise (· ≤ ·))
    (hsame : ops'.filter (fun o => !o.2.evicts) = ops.filter fun o => !o.2.evicts) :
    sights ((Watched.new c).events ops) = sights ((Watched.new c).events ops') := by
  -- An operation of the other history is one of this history or an eviction.
  have hback : ∀ {P : Nat × Operation → Prop}, (∀ o ∈ ops, P o) → (∀ now, P (now, .removeExpired)) →
      ∀ o ∈ ops', P o := by
    intro P hP hevict o ho
    cases hop : o.2.evicts with
    | false =>
      have hmem : o ∈ ops'.filter fun o => !o.2.evicts := List.mem_filter.2 ⟨ho, by rw [hop]; rfl⟩
      rw [hsame] at hmem
      exact hP o (List.mem_filter.1 hmem).1
    | true =>
      have heq : o = (o.1, .removeExpired) := Prod.ext rfl (Operation.eq_removeExpired hop)
      rw [heq]
      exact hevict o.1
  have hwithout := sights_events (twins_new c) hops hlong hsorted fun _ _ => Nat.zero_le _
  have hwithout' := sights_events (twins_new c) (hback hops fun _ => ⟨trivial, trivial⟩)
    (hback hlong fun _ _ h => by cases h) hsorted' fun _ _ => Nat.zero_le _
  rw [hwithout, hwithout', hsame]

/-- A loop comes and goes and comes again, with something in between. -/
def returning (between : List (Nat × Operation)) : List (Nat × Operation) :=
  (0, .register 1 ⟨twoEdges, {}⟩ 0) :: (0, .add loop 1) :: between ++ [(1000, .add loop 1)]

/-- Whether what the first loop has left is evicted before the second one comes or still there,
the second one is delivered. -/
theorem evictions_unobservable_loop :
    sights ((Watched.new {}).events (returning [(1000, .removeExpired)])) =
        sights ((Watched.new {}).events (returning [])) ∧
      ((Watched.new {}).run (returning [(1000, .removeExpired)])).2.index.joins.held 0 = none ∧
      ((Watched.new {}).run (returning [])).2.index.joins.held 0 ≠ none := by
  refine ⟨evictions_unobservable (fun o ho => ?_) (fun o ho a ha => ?_) (by decide) (by decide) rfl,
    by decide +kernel, by decide +kernel⟩
  · simp only [returning, List.cons_append, List.nil_append, List.mem_cons, List.not_mem_nil,
      or_false] at ho
    rcases ho with rfl | rfl | rfl | rfl
    · exact ⟨⟨Modifiers.plain_default, rfl⟩, rfl⟩
    · exact ⟨trivial, trivial⟩
    · exact ⟨trivial, trivial⟩
    · exact ⟨trivial, trivial⟩
  · simp only [returning, List.cons_append, List.nil_append, List.mem_cons, List.not_mem_nil,
      or_false] at ho
    rcases ho with rfl | rfl | rfl | rfl
    · cases ha
    · cases ha
      decide
    · cases ha
    · cases ha
      decide

end QueryIndex

end StandingQuery
