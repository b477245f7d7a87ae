import StandingQuery.Proofs.History
import StandingQuery.Proofs.Inert

/-! Queries that stay.

A query that takes solutions as they come and has no quota stays registered and active
through additions (`lasting_add`). If it never expires either, only an operation that
names it, or that clears the index, ends it (`lasting_next`). -/
namespace StandingQuery
open Std

namespace QueryIndex
open JoinState Watched GraphPattern

variable {x : QueryIndex} {τ : Life} {id : QueryId} {query : Query} {now : Nat}
variable {hits : List Hit} {sent : List Solution} {es : List Event}
variable {w : Addition Inbox} {a : Arrival} {t : Tuple} {e : Expiration}

/-! ### Additions -/

/-- A visit gives no query a quota. -/
theorem unwatched_visit (hc : w.index.Consistent []) (ref : PatternRef)
    (hquota : w.state.1[id]? = none) : (visit receive t e now w ref).state.1[id]? = none := by
  rcases visit_cases receive t e now w ref with hsame | ⟨q, b, hfailed, hq, hactive, hb⟩
  · rwa [hsame]
  · exact (visit_effects hc hfailed hq hactive hb e now).2.unwatched id hquota

theorem lasting_foldl_visit (refs : List PatternRef) (ho : Orderly w)
    (h : w.index.Serving (.upTo a.now) id query hits (sent ++ sentTo id w.state.2))
    (hplain : query.modifiers.Plain) (hactive : id ∈ w.index.active)
    (hquota : w.state.1[id]? = none) :
    id ∈ (refs.foldl (visit receive a.tuple a.expiration a.now) w).index.active ∧
      (refs.foldl (visit receive a.tuple a.expiration a.now) w).state.1[id]? = none := by
  induction refs generalizing w hits with
  | nil => exact ⟨hactive, hquota⟩
  | cons ref refs ih =>
    refine ih (orderly_visit ho _ _ _ ref) (serving_visit ho h ref) ?_
      (unwatched_visit ho.consistent ref hquota)
    rcases visit_split ho.consistent ho.failed (h.follows hactive) ref with
      ⟨-, hsame, -⟩ | ⟨hid, q, b, hmeets, -⟩
    · exact hsame.active.2 hactive
    · subst hid
      exact hmeets.active_visit hplain hquota

/-- Taking out other queries changes neither the record nor the activity of a query. -/
theorem foldl_unregister_others (ids : List QueryId) (x : QueryIndex) (hid : id ∉ ids) :
    (ids.foldl (fun x i => (x.unregister i).2) x).settled? id = x.settled? id ∧
      (id ∈ (ids.foldl (fun x i => (x.unregister i).2) x).active ↔ id ∈ x.active) := by
  induction ids generalizing x with
  | nil => exact ⟨rfl, Iff.rfl⟩
  | cons i ids ih =>
    rw [List.mem_cons, not_or] at hid
    obtain ⟨hsettled, hactive⟩ := ih (x.unregister i).2 hid.2
    refine ⟨hsettled.trans ?_, hactive.trans (mem_active_unregister hid.1)⟩
    unfold settled?
    rw [get?_unregister, if_neg (Ne.symm hid.1)]

/-- A query that takes solutions as they come and has no quota stays as it is through an addition. -/
theorem lasting_add (hc : x.Consistent []) (h : x.Serving τ id query hits sent)
    (hle : τ ≤ .upTo now) (hplain : query.modifiers.Plain) (hactive : id ∈ x.active)
    {quotas : ExtTreeMap QueryId Nat} (hquota : quotas[id]? = none) (t : Tuple) (ttl : Nat) :
    (x.add receive t ttl now (quotas, [])).index.settled? id = x.settled? id ∧
      id ∈ (x.add receive t ttl now (quotas, [])).index.active ∧
      (x.add receive t ttl now (quotas, [])).state.1[id]? = none := by
  unfold add
  split
  · exact ⟨rfl, hactive, hquota⟩
  · have ho : Orderly { index := x, state := ((quotas, []) : Inbox) } := ⟨rfl, hc, by simp⟩
    have hstart : x.Serving (.upTo now) id query hits (sent ++ sentTo id []) := by
      rw [sentTo_nil, List.append_nil]
      exact h.mono hle
    have hsettled := settled?_foldl_visit (x.patterns.lookup t) ho.consistent t (.ofTtl now ttl) now id
    have hlasting := lasting_foldl_visit (a := ⟨now, t, .ofTtl now ttl⟩) (x.patterns.lookup t) ho
      hstart hplain hactive hquota
    have horderly := orderly_foldl_visit (x.patterns.lookup t) ho t (.ofTtl now ttl) now
    dsimp only
    rw [if_neg (by rw [horderly.failed]; simp)]
    obtain ⟨hsame, hstays⟩ := foldl_unregister_others _
      ((x.patterns.lookup t).foldl (visit receive t (.ofTtl now ttl) now)
        { index := x, state := (quotas, []) }).index
      fun hid => horderly.satisfied id hid hlasting.1
    exact ⟨hsame.trans hsettled, hstays.2 hlasting.1, hlasting.2⟩

/-! ### All operations -/

/-- An operation that does not name a query and does not clear the index. -/
def Operation.Spares (id : QueryId) : Operation → Prop
  | .deactivate i | .unregister i | .renew i _ => i ≠ id
  | .clear => False
  | .register .. | .add .. | .removeExpired => True

namespace Watched

variable {w w' : Watched} {op : Operation}

/-- A query that is registered for ever and active, and whose subscriber has no quota. -/
structure Lasting (w : Watched) (id : QueryId) : Prop where
  registered : ∃ q, w.index.registry.get? id = some q ∧ q.expiration = .never
  active : id ∈ w.index.active
  quota : w.quotas[id]? = none

/-- A query that has just been registered for ever, without a quota, is one. -/
theorem lasting_register (hdone : (w.perform now (.register id query 0)).1 = .done) :
    (w.next now (.register id query 0)).Lasting id ∧ ∃ a, query.pattern.analyse = .ok a := by
  unfold next
  rcases perform_register w now id query 0 none with ⟨e, hp⟩ | ⟨analysis, index, hv, hr, hp⟩
  · rw [hp] at hdone
    cases hdone
  · rw [hp]
    refine ⟨⟨⟨_, (get?_register hr id).trans (if_pos rfl), rfl⟩, ?_, ?_⟩, analysis,
      (Query.validate_eq_ok hv).1⟩
    · show id ∈ index.active.insert id
      simp
    · dsimp only
      rw [ExtTreeMap.getElem?_alter, if_pos (Std.compare_eq_iff_eq.2 rfl)]

/-- Only an operation that names such a query, or that clears the index, ends it. -/
theorem lasting_next (hc : w.index.Consistent []) (h : w.index.Serving τ id query hits sent)
    (hle : τ ≤ .upTo now) (hplain : query.modifiers.Plain) (hlasting : w.Lasting id)
    (hspares : op.Spares id) :
    (w.next now op).Lasting id ∧ op.asked? (w.perform now op).1 id = none := by
  obtain ⟨q, hq, hnever⟩ := hlasting.registered
  cases op with
  | register i query' ttl quota =>
    unfold next
    rcases perform_register w now i query' ttl quota with ⟨e, hp⟩ | ⟨analysis, index, hv, hr, hp⟩
    · rw [hp]
      exact ⟨hlasting, rfl⟩
    · have hne : i ≠ id := by
        intro hi
        have hnone := (QueryIndex.register_eq_ok hr).1
        dsimp only at hnone
        rw [hi, hq] at hnone
        cases hnone
      rw [hp]
      refine ⟨⟨⟨q, ?_, hnever⟩, (unmoved_register hr hne).active.2 hlasting.active, ?_⟩, if_neg hne⟩
      · exact (get?_register hr id).trans ((if_neg hne).trans hq)
      · dsimp only
        rw [ExtTreeMap.getElem?_alter, if_neg (by simpa using hne)]
        exact hlasting.quota
  | deactivate i =>
    refine ⟨?_, rfl⟩
    unfold next
    rcases perform_deactivate w now i with hp | hp
    · rw [hp]
      refine ⟨⟨q, hq, hnever⟩, ?_, hlasting.quota⟩
      show id ∈ w.index.active.erase i
      rw [ExtTreeSet.mem_erase, ne_eq, Std.compare_eq_iff_eq]
      exact ⟨hspares, hlasting.active⟩
    · rw [hp]
      exact hlasting
  | unregister i =>
    have hne : i ≠ id := hspares
    refine ⟨⟨⟨q, ?_, hnever⟩, (mem_active_unregister hne.symm).2 hlasting.active, hlasting.quota⟩, rfl⟩
    exact (get?_unregister w.index i id).trans ((if_neg hne).trans hq)
  | renew i ttl =>
    have hne : i ≠ id := hspares
    refine ⟨⟨⟨q, ?_, hnever⟩, (unmoved_renew hc i ttl now id).active.2 hlasting.active,
      hlasting.quota⟩, rfl⟩
    show (w.index.renew i ttl now).2.registry.get? id = some q
    rcases renew_cases w.index i ttl now with hsame | ⟨r, hr, -, hrenewed⟩
    · rw [hsame]
      exact hq
    · rw [hrenewed]
      dsimp only
      rw [Registry.get?_update]
      dsimp only
      rw [(hc.accepted i r hr).id, if_neg hne, hq]
  | add t ttl =>
    obtain ⟨hsettled, hactive, hquota⟩ := lasting_add hc h hle hplain hlasting.active
      hlasting.quota t ttl
    refine ⟨⟨?_, hactive, hquota⟩, rfl⟩
    unfold settled? at hsettled
    rw [hq, Option.map_some, Option.map_eq_some_iff] at hsettled
    obtain ⟨r, hr, heq⟩ := hsettled
    exact ⟨r, hr, (Registered.expiration_of_settled heq).trans hnever⟩
  | removeExpired =>
    have halive : q.expiration.expiredAt now = false := by rw [hnever]; rfl
    refine ⟨⟨⟨q, ?_, hnever⟩, (mem_active_removeExpired hc hq).2 ⟨hlasting.active, halive⟩,
      hlasting.quota⟩, rfl⟩
    refine (get?_removeExpired hc now id).trans ?_
    rw [hq, Option.filter_some, halive]
    rfl
  | clear => exact hspares.elim

/-- Such a query lasts through operations that spare it, provided that something is known of
it before each of them. -/
theorem lasting_of_serving (h : History w es w') (hc : w.index.Consistent [])
    (hplain : query.modifiers.Plain) (hlasting : w.Lasting id)
    (hspares : ∀ e ∈ es, e.op.Spares id)
    (hserving : ∀ es₁ e es₂ w₁, es = es₁ ++ e :: es₂ → History w es₁ w₁ →
      (∀ e ∈ es₁, e.asked? id = none) →
        ∃ τ hits sent, τ ≤ .upTo e.now ∧ w₁.index.Serving τ id query hits sent) :
    w'.Lasting id ∧ ∀ e ∈ es, e.asked? id = none := by
  induction h with
  | nil => exact ⟨hlasting, by simp⟩
  | @concat es w' h t op ih =>
    obtain ⟨hlasting', hnone⟩ := ih (fun e he => hspares e (List.mem_append_left _ he))
      fun es₁ e es₂ w₁ he => hserving es₁ e (es₂ ++ [w'.event t op]) w₁ (by rw [he]; simp)
    obtain ⟨τ, hits, sent, hle, hs⟩ := hserving es (w'.event t op) [] w' rfl h hnone
    obtain ⟨hnext, hother⟩ := lasting_next (h.consistent hc) hs hle hplain hlasting'
      (hspares (w'.event t op) (List.mem_append_right _ List.mem_cons_self))
    refine ⟨hnext, fun e he => ?_⟩
    rcases List.mem_append.1 he with he | he
    · exact hnone e he
    · rw [List.mem_singleton.1 he]
      exact hother

/-- It lasts if time does not go back. -/
theorem lasting_history (h : History w es w') (hc : w.index.Consistent [])
    (hstart : w.index.Serving ⊥ id query [] []) (hplain : query.modifiers.Plain)
    (hlasting : w.Lasting id) (hspares : ∀ e ∈ es, e.op.Spares id)
    (hsorted : (es.map Event.now).Pairwise (· ≤ ·)) :
    w'.Lasting id ∧ ∀ e ∈ es, e.asked? id = none := by
  refine lasting_of_serving h hc hplain hlasting hspares fun es₁ e es₂ w₁ he h₁ hnone => ?_
  rw [he, List.map_append, List.map_cons, List.pairwise_append] at hsorted
  obtain ⟨hsorted, -, hlast⟩ := hsorted
  exact ⟨_, _, _, le_rfl, serving_history h₁ hc hstart hnone hsorted fun e' he' =>
    hlast e'.now (List.mem_map_of_mem he') e.now List.mem_cons_self⟩

/-- It lasts if nothing that is added expires. -/
theorem lasting_history_never (h : History w es w') (hc : w.index.Consistent [])
    (hstart : w.index.Serving ⊥ id query [] []) (hplain : query.modifiers.Plain)
    (hlasting : w.Lasting id) (hspares : ∀ e ∈ es, e.op.Spares id)
    (hnever : ∀ a ∈ arrivals es, a.expiration = .never) :
    w'.Lasting id ∧ ∀ e ∈ es, e.asked? id = none := by
  refine lasting_of_serving h hc hplain hlasting hspares fun es₁ e es₂ w₁ he h₁ hnone => ?_
  refine ⟨_, _, _, bot_le, serving_history_never h₁ hc hstart hnone fun a ha => hnever a ?_⟩
  rw [he, arrivals_append]
  exact List.mem_append_left _ ha

end Watched

end QueryIndex

end StandingQuery
