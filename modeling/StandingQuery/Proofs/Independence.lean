import StandingQuery.Proofs.Share

/-! Queries do not interfere.

What a query is sent, and what an index has of it, depends on the operations that concern
it: those on this query, and the additions, evictions and clearings, which are on all. An
operation on another query leaves its share, the quota of its subscriber and its log as
they are (`view_next_of_other`); one that concerns it does the same in two indexes that have the same
of it, whatever else there is in them (`view_next`). So the others can be left out of a
history altogether (`others_unnoticed`). -/
namespace StandingQuery
open Std

namespace QueryIndex
open JoinState

/-! ### Deliveries -/

namespace Watched

/-- Where a delivery stands for one query: whether it is active, what its subscriber still wants
and what has been sent to it. -/
structure Mail where
  active : Bool
  quota : Option Nat
  sent : List Solution

def mail (id : QueryId) (active : Active) (s : Inbox) : Mail :=
  ⟨active.contains id, s.1[id]?, sentTo id s.2⟩

variable {id : QueryId} {active active' : Active} {s s' : Inbox}

/-- A delivery to another query. -/
theorem Concerns.mail_eq {i : QueryId} (h : Concerns i active active' s s') (hne : i ≠ id) :
    mail id active' s' = mail id active s := by
  obtain ⟨fresh, hlog, hfresh⟩ := h.log
  have hnone : sentTo id fresh = [] := sentTo_of_none fun x hx => (hfresh x hx).trans_ne hne
  unfold mail
  rw [contains_congr (h.active id hne.symm), h.quotas id hne.symm, hlog, sentTo_append, hnone,
    List.append_nil]

theorem mail_erase (h : mail id active' s' = mail id active s) :
    mail id (active'.erase id) s' = mail id (active.erase id) s := by
  obtain ⟨-, hquota, hsent⟩ := Mail.mk.inj h
  have hgone : ∀ a : Active, (a.erase id).contains id = false := fun a => contains_eq_false (by simp)
  unfold mail
  rw [hgone, hgone, hquota, hsent]

/-- What a subscriber does with a solution depends on its own quota. -/
theorem mail_receive {x : Solution} (h : mail x.query active' s' = mail x.query active s) :
    mail x.query (receive active' s' x).active (receive active' s' x).state =
      mail x.query (receive active s x).active (receive active s x).state := by
  have herased := mail_erase h
  obtain ⟨hactive, hquota, hsent⟩ := Mail.mk.inj h
  obtain ⟨hgone, -, -⟩ := Mail.mk.inj herased
  have hlog : sentTo x.query (s'.2 ++ [x]) = sentTo x.query (s.2 ++ [x]) := by
    rw [sentTo_append, sentTo_append, hsent]
  unfold receive
  dsimp only
  rw [hquota]
  split
  · next left hleft =>
    unfold mail
    dsimp only
    rw [hlog, ExtTreeMap.getElem?_insert_self, ExtTreeMap.getElem?_insert_self]
    split
    · rw [hgone]
    · rw [hactive]
  · unfold mail
    dsimp only
    rw [hlog, hactive, hquota]

/-- A delivery depends on what concerns its query. -/
theorem deliver_congr {q : Registered} (now : Nat)
    (h : mail q.id active' s' = mail q.id active s) (cs : List Candidate) :
    (q.deliver receive now active' s' cs).query = (q.deliver receive now active s cs).query ∧
      (q.deliver receive now active' s' cs).satisfied =
        (q.deliver receive now active s cs).satisfied ∧
      mail q.id (q.deliver receive now active' s' cs).active
          (q.deliver receive now active' s' cs).state =
        mail q.id (q.deliver receive now active s cs).active
          (q.deliver receive now active s cs).state := by
  induction cs generalizing q active active' s s' with
  | nil => exact ⟨rfl, rfl, h⟩
  | cons c rest ih =>
    have hactive : active'.contains q.id = active.contains q.id := (Mail.mk.inj h).1
    have hid := Registered.id_of_settled (Registered.settled_offer (q := q) (c := c))
    rw [Registered.deliver, Registered.deliver, hactive]
    split
    · exact ih h
    · cases hoffer : q.offer c with
      | mk verdict r =>
        rw [hoffer] at hid
        dsimp only at hid
        rw [← hid] at h ⊢
        cases verdict with
        | suppressed => exact ih h
        | exhausted => exact ⟨rfl, rfl, mail_erase h⟩
        | delivered x last =>
          have hx : x.query = r.id :=
            (congrArg Solution.query (Registered.offer_delivered hoffer).1).trans hid.symm
          have hreceived := mail_receive (x := x) (hx ▸ h)
          rw [hx] at hreceived
          dsimp only
          rw [receive_failed, receive_failed, if_neg Bool.false_ne_true, if_neg Bool.false_ne_true]
          cases last with
          | true => exact ⟨rfl, rfl, mail_erase hreceived⟩
          | false => exact ih hreceived

end Watched

open Watched GraphPattern

/-! ### Visits -/

/-- What an addition under way has of one query. -/
structure Slice where
  share : Share
  quota : Option Nat
  sent : List Solution
  /-- The query has answered or reached its limit. -/
  ended : Bool

def Addition.slice (w : Addition Inbox) (id : QueryId) : Slice :=
  ⟨w.index.share id, w.state.1[id]?, sentTo id w.state.2, w.satisfied.contains id⟩

variable {x y : QueryIndex} {id i : QueryId} {v w : Addition Inbox} {ref : PatternRef} {t : Tuple}
variable {e : Expiration} {now ttl : Nat}

/-- A visit of a query is nothing to the others. -/
theorem slice_visit_of_ne (hc : w.index.Consistent []) (hne : ref.query ≠ id) (t : Tuple)
    (e : Expiration) (now : Nat) : (visit receive t e now w ref).slice id = w.slice id := by
  rcases visit_cases receive t e now w ref with hsame | ⟨q, b, hfailed, hq, hactive, hb⟩
  · rw [hsame]
  · have hid := (hc.accepted _ q hq).id
    have hmail := (visit_effects hc hfailed hq hactive hb e now).2.mail_eq hne
    obtain ⟨hactive', hquota, hsent⟩ := Mail.mk.inj hmail
    have hothers : q.id ≠ id := fun hi => hne (hid.symm.trans hi)
    rw [visit_match hfailed hq hactive hb] at hactive' hquota hsent ⊢
    unfold Addition.slice share
    dsimp only at hactive' hquota hsent ⊢
    rw [hactive', hquota, hsent, Registry.get?_update, Registered.id_deliver, if_neg hothers,
      contentsOf_advance hc.joins hothers.symm]
    split
    · have hnot : [q.id].contains id = false := by simp [hothers.symm]
      rw [List.contains_append, hnot, Bool.or_false]
    · rfl

/-- What a visit of a query does depends on what there is of it. -/
theorem slice_visit (hv : Orderly v) (hw : Orderly w)
    (hsettings : w.index.settings = v.index.settings)
    (h : w.slice ref.query = v.slice ref.query) (t : Tuple) (e : Expiration) (now : Nat) :
    (visit receive t e now w ref).slice ref.query = (visit receive t e now v ref).slice ref.query := by
  obtain ⟨hshare, hquota, hsent, hended⟩ := Slice.mk.inj h
  obtain ⟨hrecord, hcontains, hstored⟩ := Share.mk.inj hshare
  have hidle : ∀ {u : Addition Inbox},
      u.index.registry.get? ref.query = none ∨ ref.query ∉ u.index.active →
      (visit receive t e now u ref).slice ref.query = u.slice ref.query := fun hu => by
    rw [visit_idle hu]
  have hactive : ref.query ∈ w.index.active ↔ ref.query ∈ v.index.active := by
    rw [ExtTreeSet.mem_iff_contains, ExtTreeSet.mem_iff_contains, hcontains]
  cases hq : v.index.registry.get? ref.query with
  | none => rw [hidle (.inl hq), hidle (.inl (hrecord.trans hq)), h]
  | some q =>
    have hq' := hrecord.trans hq
    by_cases hin : ref.query ∈ v.index.active
    · cases hb : q.pattern[ref.pattern]?.bind (·.match? t) with
      | none => rw [visit_no_match hq hb, visit_no_match hq' hb, h]
      | some b =>
        have hid := (hv.consistent.accepted _ q hq).id
        obtain ⟨hchanged, hcandidates, hcontents⟩ := advance_congr
          hv.consistent.joins hw.consistent.joins (congrArg Settings.strategy hsettings)
          (hid ▸ hstored) v.index.expirations w.index.expirations ref.pattern ⟨b, e⟩ now
        have hmail : mail q.id w.index.active w.state = mail q.id v.index.active v.state := by
          rw [hid]
          unfold mail
          rw [hcontains, hquota, hsent]
        obtain ⟨hquery, hsatisfied, hmail⟩ := deliver_congr now hmail
          (v.index.joins.advance v.index.expirations q ref.pattern ⟨b, e⟩ now).candidates
        obtain ⟨hactive', hquota', hsent'⟩ := Mail.mk.inj hmail
        rw [visit_match hv.failed hq hin hb, visit_match hw.failed hq' (hactive.2 hin) hb]
        unfold Addition.slice share
        dsimp only
        rw [hcandidates, hquery, hsatisfied, Registry.get?_update, Registry.get?_update,
          Registered.id_deliver, ← hid, hactive', hquota', hsent', hcontents, if_pos rfl, if_pos rfl]
        split
        · rw [List.contains_append, List.contains_append, hid, hended]
        · rw [hid, hended]
    · rw [hidle (.inr hin), hidle (.inr (mt hactive.1 hin)), h]

/-- Of the visits of a tuple only those of the query count for it. -/
theorem slice_foldl_visit (refs : List PatternRef) (hv : Orderly v) (hw : Orderly w)
    (hsettings : w.index.settings = v.index.settings) (h : w.slice id = v.slice id) (t : Tuple)
    (e : Expiration) [e.Timely] (now : Nat) :
    ((refs.filter (·.query = id)).foldl (visit receive t e now) w).slice id =
      (refs.foldl (visit receive t e now) v).slice id := by
  induction refs generalizing v w with
  | nil => exact h
  | cons ref refs ih =>
    have hv' := orderly_visit hv t e now ref
    have hsettings' : (visit receive t e now v ref).index.settings = v.index.settings :=
      settings_visit hv.consistent t e now ref
    rw [List.filter_cons, List.foldl_cons]
    by_cases hmine : ref.query = id
    · subst hmine
      rw [if_pos (decide_eq_true rfl), List.foldl_cons]
      refine ih hv' (orderly_visit hw t e now ref) ?_ (slice_visit hv hw hsettings h t e now)
      rw [settings_visit hw.consistent, hsettings', hsettings]
    · rw [if_neg (by simpa using hmine)]
      exact ih hv' hw (hsettings.trans hsettings'.symm)
        (h.trans (slice_visit_of_ne hv.consistent hmine t e now).symm)

/-! ### Additions -/

/-- What an addition does to a query depends on what there is of it. -/
theorem add_congr {quotas quotas' : ExtTreeMap QueryId Nat} (hx : x.Consistent [])
    (hy : y.Consistent []) (hsettings : y.settings = x.settings) (hshare : y.share id = x.share id)
    (hquota : quotas'[id]? = quotas[id]?) (t : Tuple) (ttl now : Nat) :
    let a := x.add receive t ttl now (quotas, [])
    let b := y.add receive t ttl now (quotas', [])
    b.index.share id = a.index.share id ∧ b.state.1[id]? = a.state.1[id]? ∧
      sentTo id b.state.2 = sentTo id a.state.2 := by
  have harity : y.arity = x.arity := congrArg Settings.arity hsettings
  unfold add
  rw [harity]
  split
  · exact ⟨hshare, hquota, rfl⟩
  · have hox : Orderly { index := x, state := ((quotas, []) : Inbox) } := ⟨rfl, hx, by simp⟩
    have hoy : Orderly { index := y, state := ((quotas', []) : Inbox) } := ⟨rfl, hy, by simp⟩
    have hstart : Addition.slice { index := y, state := ((quotas', []) : Inbox) } id =
        Addition.slice { index := x, state := ((quotas, []) : Inbox) } id := by
      unfold Addition.slice
      rw [hshare, hquota]
    have hvisits : (y.patterns.lookup t).filter (·.query = id) =
        (x.patterns.lookup t).filter (·.query = id) := by
      rw [filter_lookup_eq hy, filter_lookup_eq hx, (Share.mk.inj hshare).1]
    have hslice := slice_foldl_visit (x.patterns.lookup t) hox hoy hsettings hstart t
      (.ofTtl now ttl) now
    rw [← hvisits, slice_foldl_visit (y.patterns.lookup t) hoy hoy rfl rfl] at hslice
    have hvisited := orderly_foldl_visit (x.patterns.lookup t) hox t (.ofTtl now ttl) now
    have hvisited' := orderly_foldl_visit (y.patterns.lookup t) hoy t (.ofTtl now ttl) now
    obtain ⟨hshare', hquota', hsent, hended⟩ := Slice.mk.inj hslice
    rw [List.contains_eq_mem, List.contains_eq_mem, decide_eq_decide] at hended
    dsimp only
    rw [hvisited.failed, hvisited'.failed, if_neg Bool.false_ne_true, if_neg Bool.false_ne_true]
    refine ⟨?_, hquota', hsent⟩
    rw [share_foldl_unregister _ hvisited.consistent, share_foldl_unregister _ hvisited'.consistent,
      hshare']
    simp only [hended]

/-! ### The capacity of memories -/

theorem capacity_unregister (x : QueryIndex) (i : QueryId) :
    (x.unregister i).2.reducedCapacity = x.reducedCapacity := by
  cases hq : x.registry.get? i with
  | none => rw [unregister_none hq]
  | some q => rw [unregister_eq hq]

theorem capacity_add (hc : x.Consistent []) (s : Inbox) (t : Tuple) (ttl now : Nat) :
    (x.add receive t ttl now s).index.reducedCapacity = x.reducedCapacity := by
  refine add_induct (P := fun y => y.reducedCapacity = x.reducedCapacity) (fun w ref _ hw => ?_)
    (fun y i hy => (capacity_unregister y i).trans hy) hc rfl s
  rcases visit_cases receive t (.ofTtl now ttl) now w ref with hsame | ⟨q, b, hfailed, hq, hactive, hb⟩
  · rw [hsame]
    exact hw
  · rw [visit_match hfailed hq hactive hb]
    exact hw

theorem capacity_removeExpired (x : QueryIndex) (now : Nat) :
    (x.removeExpired now).2.reducedCapacity = x.reducedCapacity := by
  have hevict : ∀ (due : List Mortal) (s : EvictionReport × QueryIndex),
      (due.foldl evict s).2.reducedCapacity = s.2.reducedCapacity := by
    intro due
    induction due with
    | nil => exact fun _ => rfl
    | cons e due ih =>
      intro s
      rw [List.foldl_cons, ih]
      cases e with
      | query i => exact capacity_unregister s.2 i
      | solution n => rw [evict_solution]
  exact hevict (x.expirations.due now) ({}, { x with expirations := (x.expirations.removeExpired now).2 })

/-! ### Histories -/

/-- The operation is on the query, or on all of them. -/
def Operation.concerns (id : QueryId) : Operation → Bool
  | .register i _ _ _ => i = id
  | .deactivate i => i = id
  | .unregister i => i = id
  | .renew i _ => i = id
  | .add _ _ => true
  | .removeExpired => true
  | .clear => true

namespace Watched

variable {c : Config} {v w : Watched} {op : Operation}

/-- An index that has been made with a configuration. -/
structure MadeWith (c : Config) (w : Watched) : Prop where
  consistent : w.index.Consistent []
  settings : w.index.settings = ⟨c.arity, c.maxQueries, c.joinStrategy⟩
  capacity : w.index.reducedCapacity = c.reducedCapacity

theorem madeWith_new (c : Config) : MadeWith c (.new c) := ⟨consistent_new c, settings_new c, rfl⟩

theorem capacity_next (hc : w.index.Consistent []) (now : Nat) (op : Operation) :
    (w.next now op).index.reducedCapacity = w.index.reducedCapacity := by
  unfold next
  cases op with
  | register i query ttl quota =>
    rcases perform_register w now i query ttl quota with ⟨e, hp⟩ | ⟨analysis, index, hv, hr, hp⟩
    · rw [hp]
    · obtain ⟨-, rfl⟩ := register_eq_ok hr
      rw [hp]
      rfl
  | deactivate i =>
    rcases perform_deactivate w now i with hp | hp
    · rw [hp]
      rfl
    · rw [hp]
  | unregister i => exact capacity_unregister w.index i
  | renew i ttl =>
    rcases renew_cases w.index i ttl now with hsame | ⟨q, -, -, hrenewed⟩
    · exact congrArg reducedCapacity hsame
    · exact (congrArg reducedCapacity hrenewed).trans rfl
  | add t ttl => exact capacity_add hc _ t ttl now
  | removeExpired => exact capacity_removeExpired w.index now
  | clear => rfl

theorem madeWith_next (h : MadeWith c w) (now : Nat) (op : Operation) : MadeWith c (w.next now op) where
  consistent := consistent_next h.consistent now op
  settings := (settings_next h.consistent now op).trans h.settings
  capacity := (capacity_next h.consistent now op).trans h.capacity

theorem madeWith_run (c : Config) (ops : List (Nat × Operation)) :
    MadeWith c ((Watched.new c).run ops).2 := by
  induction ops using List.reverseRecOn with
  | nil => exact madeWith_new c
  | append_singleton ops o ih =>
    rw [run_concat]
    exact madeWith_next ih o.1 o.2

/-- What there is of one query. -/
structure View where
  share : Share
  quota : Option Nat
  known : Bool

def view (w : Watched) (id : QueryId) : View :=
  ⟨w.index.share id, w.quotas[id]?, w.known.contains id⟩

theorem view_congr (hshare : w.index.share id = v.index.share id)
    (hquota : w.quotas[id]? = v.quotas[id]?) (hknown : w.known.contains id = v.known.contains id) :
    w.view id = v.view id := by
  unfold view
  rw [hshare, hquota, hknown]

/-- An operation on another query is not noticed. -/
theorem view_next_of_other (hc : w.index.Consistent []) (hop : op.concerns id = false) (now : Nat) :
    (w.next now op).view id = w.view id ∧ sentTo id (w.event now op).log = [] := by
  unfold next event
  cases op with
  | register i query ttl quota =>
    have hne : ¬ i = id := of_decide_eq_false hop
    rcases perform_register w now i query ttl quota with ⟨e, hp⟩ | ⟨analysis, index, hv, hr, hp⟩
    · rw [hp]
      exact ⟨rfl, rfl⟩
    · have hshare := share_register hc hr id
      rw [if_neg hne] at hshare
      rw [hp]
      refine ⟨view_congr hshare ?_ (contains_congr ?_), rfl⟩
      · rw [ExtTreeMap.getElem?_alter, if_neg (by simpa using hne)]
      · rw [ExtTreeSet.mem_insert, Std.compare_eq_iff_eq]
        exact or_iff_right hne
  | deactivate i =>
    have hne : ¬ i = id := of_decide_eq_false hop
    have hshare := share_deactivate w.index i id
    rw [if_neg hne] at hshare
    rcases perform_deactivate w now i with hp | hp
    · rw [hp]
      exact ⟨view_congr hshare rfl rfl, rfl⟩
    · rw [hp]
      exact ⟨rfl, rfl⟩
  | unregister i =>
    have hne : ¬ i = id := of_decide_eq_false hop
    have hshare := share_unregister hc i id
    rw [if_neg hne] at hshare
    exact ⟨view_congr hshare rfl rfl, rfl⟩
  | renew i ttl =>
    have hne : ¬ i = id := of_decide_eq_false hop
    have hshare := share_renew hc i ttl now id
    rw [if_neg hne] at hshare
    exact ⟨view_congr hshare rfl rfl, rfl⟩
  | add t ttl => cases hop
  | removeExpired => cases hop
  | clear => cases hop

/-- An operation that concerns a query does the same to it wherever there is the same of it. -/
theorem view_next (hv : MadeWith c v) (hw : MadeWith c w) (hc : c.maxQueries = none)
    (h : w.view id = v.view id) (hop : op.concerns id = true) (now : Nat) :
    (w.next now op).view id = (v.next now op).view id ∧
      sentTo id (w.event now op).log = sentTo id (v.event now op).log := by
  obtain ⟨hshare, hquota, hknown⟩ := View.mk.inj h
  have hsettings : w.index.settings = v.index.settings := hw.settings.trans hv.settings.symm
  unfold next event
  cases op with
  | register i query ttl quota =>
    obtain rfl : i = id := of_decide_eq_true hop
    have harity : w.index.arity = v.index.arity := congrArg Settings.arity hsettings
    have hbound : ∀ {u : Watched}, MadeWith c u → u.index.registry.maxQueries = none := fun hu =>
      (congrArg Settings.maxQueries hu.settings).trans hc
    have hentry : ∀ r now, w.index.entry r now = v.index.entry r now := by
      intro r now
      unfold entry
      rw [hw.capacity, hv.capacity]
    have hrefusal : w.index.registry.refusal? i = v.index.registry.refusal? i :=
      Registry.refusal?_congr ((hbound hw).trans (hbound hv).symm)
        (congrArg Option.isSome (Share.mk.inj hshare).1) fun hb => absurd (hbound hv) hb
    rcases perform_register_alike harity hrefusal now query ttl quota with
      ⟨e, hp, hp'⟩ | ⟨analysis, x, y, hr, hr', hp, hp'⟩
    · rw [hp, hp']
      exact ⟨h, rfl⟩
    · have hnew := share_register hv.consistent hr i
      have hnew' := share_register hw.consistent hr' i
      rw [if_pos rfl] at hnew hnew'
      rw [hp, hp']
      refine ⟨view_congr ?_ ?_ ?_, rfl⟩
      · dsimp only
        rw [hnew, hnew', hentry]
      · rw [ExtTreeMap.getElem?_alter_self, ExtTreeMap.getElem?_alter_self]
      · rw [ExtTreeSet.contains_insert_self, ExtTreeSet.contains_insert_self]
  | deactivate i =>
    obtain rfl : i = id := of_decide_eq_true hop
    have hended : (w.index.deactivate i).share i = (v.index.deactivate i).share i := by
      rw [share_deactivate, share_deactivate, hshare]
    rw [perform_deactivate_eq, perform_deactivate_eq, hknown]
    split
    · exact ⟨view_congr hended hquota hknown, rfl⟩
    · exact ⟨h, rfl⟩
  | unregister i =>
    obtain rfl : i = id := of_decide_eq_true hop
    have hdropped : (w.index.unregister i).2.share i = (v.index.unregister i).2.share i := by
      rw [share_unregister hw.consistent, share_unregister hv.consistent, hshare]
    exact ⟨view_congr hdropped hquota hknown, rfl⟩
  | renew i ttl =>
    obtain rfl : i = id := of_decide_eq_true hop
    have hrenewed : (w.index.renew i ttl now).2.share i = (v.index.renew i ttl now).2.share i := by
      rw [share_renew hw.consistent, share_renew hv.consistent, hshare]
    exact ⟨view_congr hrenewed hquota hknown, rfl⟩
  | add t ttl =>
    obtain ⟨hadded, hquota', hsent⟩ := add_congr hv.consistent hw.consistent hsettings hshare hquota
      t ttl now
    exact ⟨view_congr hadded hquota' hknown, hsent⟩
  | removeExpired =>
    have hleft : (w.index.removeExpired now).2.share id = (v.index.removeExpired now).2.share id := by
      rw [share_removeExpired hw.consistent, share_removeExpired hv.consistent, hshare]
    exact ⟨view_congr hleft hquota hknown, rfl⟩
  | clear =>
    have hleft : w.index.clear.share id = v.index.clear.share id := by
      rw [share_clear hw.consistent, share_clear hv.consistent, hshare]
    exact ⟨view_congr hleft hquota hknown, rfl⟩

/-- Without the operations on other queries a history is the same for a query. -/
theorem view_run (hc : c.maxQueries = none) (ops : List (Nat × Operation)) (id : QueryId) :
    let alone := ops.filter fun o => o.2.concerns id
    ((Watched.new c).run alone).2.view id = ((Watched.new c).run ops).2.view id ∧
      deliveries id ((Watched.new c).events alone) = deliveries id ((Watched.new c).events ops) := by
  induction ops using List.reverseRecOn with
  | nil => exact ⟨rfl, rfl⟩
  | append_singleton ops o ih =>
    obtain ⟨hview, hsent⟩ := ih
    have hv := madeWith_run c ops
    have hw := madeWith_run c (ops.filter fun o => o.2.concerns id)
    dsimp only
    rw [List.filter_append, List.filter_singleton, run_concat, events_concat, deliveries_append,
      deliveries_singleton]
    cases hop : o.2.concerns id with
    | true =>
      obtain ⟨hnext, hlog⟩ := view_next hv hw hc hview hop o.1
      rw [cond_true, run_concat, events_concat, deliveries_append, deliveries_singleton, hnext, hlog,
        hsent]
      exact ⟨rfl, rfl⟩
    | false =>
      obtain ⟨hnext, hlog⟩ := view_next_of_other hv.consistent hop o.1
      rw [cond_false, List.append_nil, hnext, hlog, List.append_nil]
      exact ⟨hview, hsent⟩

end Watched

/-- Leaving out all operations on other queries changes neither what a query is sent, to the order
and the expirations, nor what can be seen of it in the end, and so after any operation of a longer
history. Its modifiers, its subscriber and the joins are arbitrary; only there must be no bound on
the number of queries. -/
theorem others_unnoticed {c : Config} (hc : c.maxQueries = none) (ops : List (Nat × Operation))
    (id : QueryId) :
    let alone := ops.filter fun o => o.2.concerns id
    deliveries id ((Watched.new c).events alone) = deliveries id ((Watched.new c).events ops) ∧
      ((Watched.new c).run alone).2.index.glance id = ((Watched.new c).run ops).2.index.glance id := by
  obtain ⟨hview, hsent⟩ := Watched.view_run hc ops id
  exact ⟨hsent, glance_congr (Watched.madeWith_run c ops).consistent
    (Watched.madeWith_run c (ops.filter fun o => o.2.concerns id)).consistent (View.mk.inj hview).1⟩

/-- Another query comes first, is hit by the same loops, and goes. -/
def crowded : List (Nat × Operation) :=
  [(0, .register 2 ⟨twoEdges, {}⟩ 0), (0, .add loop 1),
    (0, .register 1 ⟨twoEdges, { distinctness := .distinct }⟩ 5), (0, .add loop 1),
    (500, .unregister 2), (500, .add loop 1)]

/-- Of the two loops that hit it a query with a memory is sent the first one, with or without the
other query. -/
theorem others_unnoticed_loop :
    deliveries 1 ((Watched.new {}).events (crowded.filter fun o => o.2.concerns 1)) =
        [⟨1, .bindings allAtX, .instant 1000⟩] ∧
      ((Watched.new {}).run (crowded.filter fun o => o.2.concerns 1)).2.index.glance 1 =
        ⟨some ⟨1, 0, .instant 5000, 2, 1, true⟩, some 1, 3⟩ ∧
      (crowded.filter fun o => o.2.concerns 1).length = 4 := by
  obtain ⟨hsent, hglance⟩ := others_unnoticed (c := {}) rfl crowded 1
  have hcrowd : deliveries 1 ((Watched.new {}).events crowded) =
      [⟨1, .bindings allAtX, .instant 1000⟩] := by decide +kernel
  have hseen : ((Watched.new {}).run crowded).2.index.glance 1 =
      ⟨some ⟨1, 0, .instant 5000, 2, 1, true⟩, some 1, 3⟩ := by decide +kernel
  exact ⟨hsent.trans hcrowd, hglance.trans hseen, by decide⟩

end QueryIndex

end StandingQuery
