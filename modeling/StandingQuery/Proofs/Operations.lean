import StandingQuery.Proofs.Serving

/-! Every operation, seen from one query.

What `Serving` says of a query is kept by every operation, except that registering an
id again starts afresh (`serving_register`, `serving_next`). A query that has been
deactivated, has expired or has been cleared away is not active any more, and so is
not promised anything further. -/
namespace StandingQuery
open Std

namespace QueryIndex
open JoinState Watched GraphPattern

variable {x y : QueryIndex} {τ : Life} {id : QueryId} {query : Query} {now : Nat}
variable {hits : List Hit} {sent : List Solution} {q : Registered}

/-- A query that is active and of which something holds is registered. -/
theorem Serving.registered (h : x.Serving τ id query hits sent) (hactive : id ∈ x.active) :
    ∃ q, x.registry.get? id = some q := by
  obtain ⟨q, hq, -⟩ := asked?_eq_some.1 (h.follows hactive).asked
  exact ⟨q, hq⟩

/-! ### Registering -/

/-- A query that has just been registered has no hits. -/
theorem serving_register {r : Registration} (hc : x.Consistent []) (hr : x.register r now = .ok y) :
    (y.activate r.id).Serving ⊥ r.id r.query [] [] := by
  have hget := get?_register hr r.id
  rw [if_pos rfl] at hget
  obtain ⟨hnone, hy⟩ := register_eq_ok hr
  have hjoins : (y.activate r.id).joins = x.joins := by rw [hy]; rfl
  constructor
  · intro hactive
    constructor
    · unfold asked? activate
      dsimp only
      rw [hget]
      rfl
    · exact hactive
    · intro P b hb _
      obtain ⟨i, hi⟩ := hb.connected.nonempty
      rw [hjoins, hc.life_eq_bot hnone, le_bot_iff.1 (joinLife_le (L := .ofHits []) (b := b) hi)]
    · intro P b _ _
      rw [hjoins, hc.life_eq_bot hnone]
      exact bot_le
  · intro _
    exact ⟨[], [], .nil, List.nil_prefix, fun _ => ⟨rfl, rfl⟩⟩

theorem register_refused {r : Registration} {reason : Declined}
    (h : x.registry.refusal? r.id = some reason) (now : Nat) : x.register r now = .error reason := by
  unfold register Registry.register
  simp only [Registered.new, h, bind, Except.bind]

theorem exists_register {r : Registration} (h : x.registry.refusal? r.id = none) (now : Nat) :
    ∃ y, x.register r now = .ok y := by
  unfold register Registry.register
  simp only [Registered.new, h, bind, Except.bind]
  exact ⟨_, rfl⟩

/-- Registering a query is nothing to the others. -/
theorem unmoved_register {r : Registration} (hr : x.register r now = .ok y) (hne : r.id ≠ id) :
    Unmoved id x (y.activate r.id) := by
  have hget := get?_register hr id
  rw [if_neg hne] at hget
  obtain ⟨-, hy⟩ := register_eq_ok hr
  have hjoins : (y.activate r.id).joins = x.joins := by rw [hy]; rfl
  constructor
  · unfold asked? activate
    dsimp only
    rw [hget]
  · have hactive : (y.activate r.id).active = x.active.insert r.id := by rw [hy]; rfl
    rw [hactive, ExtTreeSet.mem_insert, Std.compare_eq_iff_eq]
    exact or_iff_right hne
  · rw [hjoins]
  · intro P b
    rw [hjoins]

/-! ### Renewing and deactivating -/

/-- A new lifetime changes nothing of what a query is served. -/
theorem unmoved_renew (hc : x.Consistent []) (i : QueryId) (ttl now : Nat) (id : QueryId) :
    Unmoved id x (x.renew i ttl now).2 := by
  obtain ⟨hactive, hjoins⟩ := renew_frame x i ttl now
  refine ⟨?_, by rw [hactive], by rw [hjoins], fun _ _ => by rw [hjoins]⟩
  unfold asked?
  rw [get?_renew hc]
  split
  · rw [Option.map_map]
    rfl
  · rfl

theorem serving_deactivate (h : x.Serving τ id query hits sent) (i : QueryId) :
    (x.deactivate i).Serving τ id query hits sent := by
  by_cases hi : i = id
  · subst hi
    refine h.inactive ?_ rfl
    unfold deactivate
    simp
  · refine h.unmoved ⟨rfl, ?_, rfl, fun _ _ => rfl⟩
    unfold deactivate
    dsimp only
    rw [ExtTreeSet.mem_erase, ne_eq, Std.compare_eq_iff_eq]
    exact and_iff_right hi

/-! ### Removing -/

/-- An eviction forgets only what has ended. -/
theorem follows_removeExpired {L : Book} (hc : x.Consistent []) (h : x.Follows τ id query L)
    (hle : τ ≤ .upTo now) (hactive : id ∈ (x.removeExpired now).2.active) :
    (x.removeExpired now).2.Follows (.upTo now) id query L := by
  have hstrategy : (x.removeExpired now).2.joins.strategy = x.joins.strategy :=
    congrArg Settings.strategy (settings_removeExpired x now)
  obtain ⟨q, hq, -⟩ := asked?_eq_some.1 h.asked
  obtain ⟨-, halive⟩ := (mem_active_removeExpired hc hq).1 hactive
  have hget : (x.removeExpired now).2.registry.get? id = some q := by
    rw [get?_removeExpired hc, hq, Option.filter_some, halive]
    rfl
  have hstays : ((x.removeExpired now).2.registry.get? id).isSome := by rw [hget]; rfl
  have hfollows := h.mono hle
  constructor
  · unfold asked?
    rw [hget, ← hq]
    exact hfollows.asked
  · exact hactive
  · intro P b hb hkeeps
    rw [life_removeExpired hc hstays, Life.cut_sup]
    exact hfollows.faithful P b hb fun hs => hkeeps (hstrategy.trans hs)
  · intro P b hb hkeeps
    rw [life_removeExpired hc hstays]
    exact Life.cut_le.trans (hfollows.grounded P b hb fun hs => hkeeps (hstrategy.trans hs))

theorem serving_removeExpired (hc : x.Consistent []) (h : x.Serving τ id query hits sent)
    (hle : τ ≤ .upTo now) : (x.removeExpired now).2.Serving (.upTo now) id query hits sent := by
  have hstrategy : (x.removeExpired now).2.joins.strategy = x.joins.strategy :=
    congrArg Settings.strategy (settings_removeExpired x now)
  by_cases hactive' : id ∈ (x.removeExpired now).2.active
  · have hactive := mem_active_of_removeExpired hactive'
    constructor
    · exact fun _ => follows_removeExpired hc (h.follows hactive) hle hactive'
    · intro hplain
      obtain ⟨earlier, served, hserved, hbegins, hall⟩ := h.sent hplain
      rw [hstrategy]
      exact ⟨earlier, served, hserved, hbegins, fun _ => hall hactive⟩
  · exact h.inactive hactive' hstrategy

theorem mem_foldl_erase {ids : List QueryId} {active : Active} :
    id ∈ ids.foldl (·.erase ·) active ↔ id ∈ active ∧ id ∉ ids := by
  induction ids generalizing active with
  | nil => simp
  | cons i ids ih =>
    rw [List.foldl_cons, ih, ExtTreeSet.mem_erase, ne_eq, Std.compare_eq_iff_eq, List.mem_cons,
      not_or, eq_comm]
    constructor
    · intro ⟨⟨hi, hactive⟩, hids⟩
      exact ⟨hactive, hi, hids⟩
    · intro ⟨hactive, hi, hids⟩
      exact ⟨⟨hi, hactive⟩, hids⟩

/-- The registered queries are deactivated. -/
theorem mem_active_clear : id ∈ x.clear.active ↔ id ∈ x.active ∧ x.registry.get? id = none := by
  refine mem_foldl_erase.trans (and_congr_right fun _ => ?_)
  show id ∉ x.registry.queries.keys ↔ x.registry.queries[id]? = none
  rw [ExtTreeMap.mem_keys, ExtTreeMap.mem_iff_isSome_getElem?, Option.not_isSome_iff_eq_none]

theorem serving_clear (h : x.Serving τ id query hits sent) :
    x.clear.Serving τ id query hits sent := by
  refine h.inactive (fun hactive => ?_) strategy_clear
  obtain ⟨hactive, hnone⟩ := mem_active_clear.1 hactive
  obtain ⟨q, hq⟩ := h.registered hactive
  rw [hq] at hnone
  cases hnone

/-! ### What was asked -/

theorem asked?_of_unregister {i : QueryId} (h : (x.unregister i).2.asked? id = some query) :
    x.asked? id = some query := by
  rw [asked?_unregister] at h
  split at h
  · cases h
  · exact h

theorem asked?_of_removeExpired (hc : x.Consistent [])
    (h : (x.removeExpired now).2.asked? id = some query) : x.asked? id = some query := by
  obtain ⟨q, hq, hasked⟩ := asked?_eq_some.1 h
  rw [get?_removeExpired hc] at hq
  exact asked?_eq_some.2 ⟨q, (Option.filter_eq_some_iff.1 hq).1, hasked⟩

theorem asked?_of_add (hc : x.Consistent []) {s : Inbox} {t : Tuple} {ttl : Nat}
    (h : (x.add receive t ttl now s).index.asked? id = some query) : x.asked? id = some query := by
  refine add_induct (P := fun y => y.asked? id = some query → x.asked? id = some query)
    (fun w ref hw hold => ?_) (fun y i hold hasked => ?_) hc (fun hasked => hasked) s h
  · rw [asked?_visit hw]
    exact hold
  · exact hold (asked?_of_unregister hasked)

theorem settings_add (hc : x.Consistent []) (s : Inbox) (t : Tuple) (ttl now : Nat) :
    (x.add receive t ttl now s).index.settings = x.settings :=
  add_induct (P := fun y => y.settings = x.settings)
    (fun _ ref hw hsame => (settings_visit hw _ _ _ ref).trans hsame)
    (fun y i hsame => (settings_unregister y i).trans hsame) hc rfl s

theorem settings_renew (x : QueryIndex) (i : QueryId) (ttl now : Nat) :
    (x.renew i ttl now).2.settings = x.settings := by
  rcases renew_cases x i ttl now with hsame | ⟨q, -, -, hrenewed⟩
  · rw [hsame]
  · rw [hrenewed]
    rfl

/-! ### Performing an operation -/

/-- The tuple that an operation adds, if it adds one. -/
def Operation.arrival? (now : Nat) : Operation → Option Arrival
  | .add t ttl => some ⟨now, t, .ofTtl now ttl⟩
  | _ => none

/-- What an operation has registered under an id, going by its answer. -/
def Operation.asked? (op : Operation) (result : Result) (id : QueryId) : Option Query :=
  match op, result with
  | .register i query _ _, .done => if i = id then some query else none
  | _, _ => none

/-- Which queries are active is no business of the other parts. -/
theorem Consistent.reactive {struck : List Mortal} (hc : x.Consistent struck) (active : Active) :
    Consistent { x with active } struck where
  accepted id q hq := (hc.accepted id q hq).of_arity rfl
  joins := hc.joins
  held := hc.held
  expirations := hc.expirations
  tracked := hc.tracked
  patterns := hc.patterns

namespace Watched

variable {w w' : Watched} {quota : Option Nat} {ttl : Nat}

/-- The index after an operation. -/
def next (w : Watched) (now : Nat) (op : Operation) : Watched := (w.perform now op).2.2

/-- A registration is refused and changes nothing, or succeeds. -/
theorem perform_register (w : Watched) (now : Nat) (id : QueryId) (query : Query) (ttl : Nat)
    (quota : Option Nat) :
    (∃ e, w.perform now (.register id query ttl quota) = (.refused e, [], w)) ∨
      ∃ analysis index, query.validate w.index.arity = .ok analysis ∧
        w.index.register ⟨id, query, analysis, ttl⟩ now = .ok index ∧
        w.perform now (.register id query ttl quota) = (.done, [],
          { index := index.activate id, quotas := w.quotas.alter id fun _ => quota,
            known := w.known.insert id }) := by
  unfold perform register
  cases hv : query.validate w.index.arity with
  | error e => exact .inl ⟨e, by simp only [bind, Except.bind, hv]⟩
  | ok analysis =>
    cases hr : w.index.register ⟨id, query, analysis, ttl⟩ now with
    | error reason => exact .inl ⟨.registry reason, by simp only [bind, Except.bind, hv, hr]⟩
    | ok index =>
      exact .inr ⟨analysis, index, rfl, hr, by simp only [bind, Except.bind, hv, hr]⟩

/-- How a registration is answered. -/
theorem perform_register_result (w : Watched) (now : Nat) (id : QueryId) (query : Query) (ttl : Nat)
    (quota : Option Nat) : (w.perform now (.register id query ttl quota)).1 =
      match query.validate w.index.arity with
      | .error e => .refused e
      | .ok _ => match w.index.registry.refusal? id with
        | some reason => .refused (.registry reason)
        | none => .done := by
  unfold perform register
  cases hv : query.validate w.index.arity with
  | error e => simp only [hv, bind, Except.bind]
  | ok analysis =>
    cases hr : w.index.registry.refusal? id with
    | some reason =>
      have hrefused := register_refused (r := ⟨id, query, analysis, ttl⟩) hr now
      simp only [hv, bind, Except.bind, hrefused]
    | none =>
      obtain ⟨index, hindex⟩ := exists_register (r := ⟨id, query, analysis, ttl⟩) hr now
      simp only [hv, bind, Except.bind, hindex]

/-- It succeeds if the query is valid and the registry admits it. -/
theorem perform_register_done_iff : (w.perform now (.register id query ttl quota)).1 = .done ↔
    (∃ a, query.validate w.index.arity = .ok a) ∧ w.index.registry.refusal? id = none := by
  rw [perform_register_result]
  cases query.validate w.index.arity with
  | error e => simp
  | ok a => cases w.index.registry.refusal? id <;> simp

/-- Two indexes with the same places for patterns that admit a query alike answer alike. -/
theorem perform_register_alike {v : Watched} (harity : w.index.arity = v.index.arity)
    (hrefusal : w.index.registry.refusal? id = v.index.registry.refusal? id) (now : Nat)
    (query : Query) (ttl : Nat) (quota : Option Nat) :
    (∃ e, v.perform now (.register id query ttl quota) = (.refused e, [], v) ∧
        w.perform now (.register id query ttl quota) = (.refused e, [], w)) ∨
      ∃ analysis x y, v.index.register ⟨id, query, analysis, ttl⟩ now = .ok x ∧
        w.index.register ⟨id, query, analysis, ttl⟩ now = .ok y ∧
        v.perform now (.register id query ttl quota) = (.done, [],
          ⟨x.activate id, v.quotas.alter id fun _ => quota, v.known.insert id⟩) ∧
        w.perform now (.register id query ttl quota) = (.done, [],
          ⟨y.activate id, w.quotas.alter id fun _ => quota, w.known.insert id⟩) := by
  have hresult : (w.perform now (.register id query ttl quota)).1 =
      (v.perform now (.register id query ttl quota)).1 := by
    rw [perform_register_result, perform_register_result, harity, hrefusal]
  rcases perform_register v now id query ttl quota with ⟨e, hp⟩ | ⟨analysis, x, hvalid, hr, hp⟩ <;>
    rcases perform_register w now id query ttl quota with
      ⟨e', hp'⟩ | ⟨analysis', y, hvalid', hr', hp'⟩
  · rw [hp, hp'] at hresult
    cases hresult
    exact .inl ⟨e, hp, hp'⟩
  · rw [hp, hp'] at hresult
    cases hresult
  · rw [hp, hp'] at hresult
    cases hresult
  · rw [harity, hvalid] at hvalid'
    cases hvalid'
    exact .inr ⟨analysis, x, y, hr, hr', hp, hp'⟩

theorem perform_deactivate_eq (w : Watched) (now : Nat) (id : QueryId) :
    w.perform now (.deactivate id) =
      if w.known.contains id then (.flag true, [], { w with index := w.index.deactivate id })
      else (.done, [], w) := rfl

theorem perform_deactivate (w : Watched) (now : Nat) (id : QueryId) :
    (w.perform now (.deactivate id)).2 = ([], { w with index := w.index.deactivate id }) ∨
      (w.perform now (.deactivate id)).2 = ([], w) := by
  rw [perform_deactivate_eq]
  split
  · exact .inl rfl
  · exact .inr rfl

/-- Only additions deliver. -/
theorem log_eq_nil {op : Operation} (h : op.arrival? now = none) : (w.perform now op).2.1 = [] := by
  cases op with
  | register i query ttl quota =>
    rcases perform_register w now i query ttl quota with ⟨e, hp⟩ | ⟨analysis, index, hv, hr, hp⟩
    · rw [hp]
    · rw [hp]
  | deactivate i =>
    rcases perform_deactivate w now i with hp | hp
    · rw [hp]
    · rw [hp]
  | add t ttl => cases h
  | unregister i => rfl
  | renew i ttl => rfl
  | removeExpired => rfl
  | clear => rfl

/-- Whatever is performed, the parts of the index agree afterwards. -/
theorem consistent_next (hc : w.index.Consistent []) (now : Nat) (op : Operation) :
    (w.next now op).index.Consistent [] := by
  cases op with
  | register id query ttl quota =>
    unfold next
    rcases perform_register w now id query ttl quota with ⟨e, hp⟩ | ⟨analysis, index, hv, hr, hp⟩
    · rw [hp]
      exact hc
    · obtain ⟨hanalysed, harity⟩ := Query.validate_eq_ok hv
      rw [hp]
      exact (consistent_register hc hr hanalysed harity).reactive _
  | deactivate id =>
    unfold next
    rcases perform_deactivate w now id with hp | hp
    · rw [hp]
      exact hc.reactive _
    · rw [hp]
      exact hc
  | unregister id => exact consistent_unregister hc id
  | renew id ttl => exact consistent_renew hc id ttl now
  | add t ttl => exact consistent_add hc receive t ttl now _
  | removeExpired => exact consistent_removeExpired hc now
  | clear => exact consistent_clear w.index

theorem settings_next (hc : w.index.Consistent []) (now : Nat) (op : Operation) :
    (w.next now op).index.settings = w.index.settings := by
  cases op with
  | register id query ttl quota =>
    unfold next
    rcases perform_register w now id query ttl quota with ⟨e, hp⟩ | ⟨analysis, index, hv, hr, hp⟩
    · rw [hp]
    · obtain ⟨-, rfl⟩ := QueryIndex.register_eq_ok hr
      rw [hp]
      rfl
  | deactivate id =>
    unfold next
    rcases perform_deactivate w now id with hp | hp
    · rw [hp]
      rfl
    · rw [hp]
  | unregister id => exact settings_unregister w.index id
  | renew id ttl => exact settings_renew w.index id ttl now
  | add t ttl => exact settings_add hc _ t ttl now
  | removeExpired => exact settings_removeExpired w.index now
  | clear => exact congrArg (Settings.mk _ _) strategy_clear

/-- Any operation but a registration of the query itself keeps what holds of it; an addition
hits it, and it is sent what the hits are served. -/
theorem serving_next {op : Operation} (hc : w.index.Consistent [])
    (h : w.index.Serving τ id query hits sent) (hle : τ ≤ .upTo now)
    (hother : op.asked? (w.perform now op).1 id = none) :
    (w.next now op).index.Serving (.upTo now) id query
      (hits ++ (op.arrival? now).toList.flatMap (hitsOf id query.pattern))
      (sent ++ sentTo id (w.perform now op).2.1) := by
  -- All operations but additions hit nothing and send nothing.
  have hquiet : (w.next now op).index.Serving (.upTo now) id query hits sent →
      op.arrival? now = none →
      (w.next now op).index.Serving (.upTo now) id query
        (hits ++ (op.arrival? now).toList.flatMap (hitsOf id query.pattern))
        (sent ++ sentTo id (w.perform now op).2.1) := by
    intro hs harrival
    rw [harrival, log_eq_nil harrival, sentTo_nil, Option.toList_none, List.flatMap_nil,
      List.append_nil, List.append_nil]
    exact hs
  have hmono := h.mono hle
  cases op with
  | register i query' ttl quota =>
    rcases perform_register w now i query' ttl quota with ⟨e, hp⟩ | ⟨analysis, index, hv, hr, hp⟩
    · refine hquiet ?_ rfl
      unfold next
      rw [hp]
      exact hmono
    · rw [hp] at hother
      have hne : i ≠ id := by
        intro hi
        rw [Operation.asked?, if_pos hi] at hother
        cases hother
      refine hquiet ?_ rfl
      unfold next
      rw [hp]
      exact hmono.unmoved (unmoved_register hr hne)
  | deactivate i =>
    rcases perform_deactivate w now i with hp | hp
    · refine hquiet ?_ rfl
      unfold next
      rw [hp]
      exact serving_deactivate hmono i
    · refine hquiet ?_ rfl
      unfold next
      rw [hp]
      exact hmono
  | unregister i => exact hquiet (serving_unregister hc hmono i) rfl
  | renew i ttl => exact hquiet (hmono.unmoved (unmoved_renew hc i ttl now id)) rfl
  | add t ttl =>
    rw [Operation.arrival?, Option.toList_some, List.flatMap_singleton]
    exact serving_add hc h hle w.quotas t ttl
  | removeExpired => exact hquiet (serving_removeExpired hc h hle) rfl
  | clear => exact hquiet (serving_clear hmono) rfl

end Watched

end QueryIndex

end StandingQuery
