import StandingQuery.Proofs.Serving

/-! Additions that only add.

If all queries take solutions as they come and no subscriber has a quota (`Inert`), an
addition changes nothing but what is stored: the same queries are registered, with the
same lifetimes, and the same are active (`inert_add`). What is stored of the single
matches of a query grows by the hits of the tuple (`stored_add`), and a query that is
not registered or not active is sent nothing (`idle_add`). -/
namespace StandingQuery
open Std

namespace QueryIndex
open JoinState Watched GraphPattern

/-- All queries take solutions as they come, and no subscriber has a quota. -/
structure Inert (x : QueryIndex) (quotas : ExtTreeMap QueryId Nat) : Prop where
  plain : ∀ id query, x.asked? id = some query → query.modifiers.Plain
  unwatched : ∀ id : QueryId, quotas[id]? = none

variable {x : QueryIndex} {id : QueryId} {query : Query} {L : Book} {now ttl : Nat}
variable {w : Addition Inbox} {ref : PatternRef} {a : Arrival} {t : Tuple} {e : Expiration}
variable {quotas : ExtTreeMap QueryId Nat}

/-! ### Visits -/

/-- An addition under way in which nothing has gone wrong and no query is over. -/
structure Calm (w : Addition Inbox) : Prop where
  failed : w.failed = false
  consistent : w.index.Consistent []
  inert : w.index.Inert w.state.1
  satisfied : w.satisfied = []

theorem calm_visit (h : Calm w) (t : Tuple) (e : Expiration) [e.Timely] (now : Nat) (ref : PatternRef) :
    Calm (visit receive t e now w ref) ∧
      (visit receive t e now w ref).index.active = w.index.active := by
  rcases visit_cases receive t e now w ref with hsame | ⟨q, b, hfailed, hq, hactive, hb⟩
  · rw [hsame]
    exact ⟨h, rfl⟩
  · have hid := (h.consistent.accepted _ q hq).id
    have hplain : q.modifiers.Plain := h.inert.plain _ _ (asked?_eq_some.2 ⟨q, hq, rfl⟩)
    have hmemory := (h.consistent.accepted _ q hq).memory hplain.distinctness
    have hstays := active_deliver_plain hplain hmemory now w.index.active
      (h.inert.unwatched q.id)
      (w.index.joins.advance w.index.expirations q ref.pattern ⟨b, e⟩ now).candidates
    obtain ⟨_, -, -, hover⟩ := deliver_plain (s := w.state) hplain hmemory now (hid ▸ hactive)
      (w.index.joins.advance w.index.expirations q ref.pattern ⟨b, e⟩ now).candidates
    rw [hstays] at hover
    obtain ⟨-, hover⟩ := hover (hid ▸ hactive)
    refine ⟨⟨?_, consistent_visit h.consistent receive t e now ref, ⟨fun i query hasked => ?_,
      fun i => ?_⟩, ?_⟩, ?_⟩
    · rw [visit_match hfailed hq hactive hb]
      exact deliver_failed q now _ _ _
    · rw [asked?_visit h.consistent] at hasked
      exact h.inert.plain i query hasked
    · exact (visit_effects h.consistent hfailed hq hactive hb e now).2.unwatched i (h.inert.unwatched i)
    · rw [visit_match hfailed hq hactive hb]
      dsimp only
      rw [hover, if_neg (by simp), h.satisfied]
    · rw [visit_match hfailed hq hactive hb]
      exact hstays

theorem calm_foldl_visit (refs : List PatternRef) (h : Calm w) (t : Tuple) (e : Expiration) [e.Timely]
    (now : Nat) :
    Calm (refs.foldl (visit receive t e now) w) ∧
      (refs.foldl (visit receive t e now) w).index.active = w.index.active := by
  induction refs generalizing w with
  | nil => exact ⟨h, rfl⟩
  | cons ref refs ih =>
    obtain ⟨hcalm, hactive⟩ := calm_visit h t e now ref
    obtain ⟨hcalm', hactive'⟩ := ih hcalm
    exact ⟨hcalm', hactive'.trans hactive⟩

theorem settled?_foldl_visit (refs : List PatternRef) (hc : w.index.Consistent []) (t : Tuple)
    (e : Expiration) [e.Timely] (now : Nat) (id : QueryId) :
    (refs.foldl (visit receive t e now) w).index.settled? id = w.index.settled? id := by
  induction refs generalizing w with
  | nil => rfl
  | cons ref refs ih =>
    exact (ih (consistent_visit hc receive t e now ref)).trans (settled?_visit hc t e now ref id)

/-- Every hit of a query that is followed is stored. -/
theorem stored_foldl_visit (refs : List PatternRef) (h : Calm w)
    (hf : w.index.Follows (.upTo a.now) id query L) :
    (refs.foldl (visit receive a.tuple a.expiration a.now) w).index.stored id =
      (refs.flatMap (hitFor id query.pattern a)).foldl Book.record (w.index.stored id) := by
  induction refs generalizing w L with
  | nil => rfl
  | cons ref refs ih =>
    obtain ⟨hcalm, hactive⟩ := calm_visit h a.tuple a.expiration a.now ref
    rw [List.foldl_cons, List.flatMap_cons, List.foldl_append]
    rcases visit_split h.consistent h.failed hf ref with ⟨hnone, hsame, -⟩ | ⟨hid, q, b, hmeets, hone⟩
    · rw [ih hcalm (hf.unmoved hsame), hnone, hsame.stored, List.foldl_nil]
    · subst hid
      rw [ih hcalm (hmeets.follows_visit (hactive ▸ hf.active)), hone, hmeets.stored_visit]
      rfl

theorem idle_foldl_visit [e.Timely] (refs : List PatternRef) (h : Calm w)
    (hidle : id ∉ w.index.active ∨ w.index.registry.get? id = none) :
    Unmoved id w.index (refs.foldl (visit receive t e now) w).index ∧
      sentTo id (refs.foldl (visit receive t e now) w).state.2 = sentTo id w.state.2 := by
  induction refs generalizing w with
  | nil => exact ⟨.refl, rfl⟩
  | cons ref refs ih =>
    obtain ⟨hsame, hlog⟩ := idle_visit h.consistent t e now ref (.inr hidle)
    have hstill : id ∉ (visit receive t e now w ref).index.active ∨
        (visit receive t e now w ref).index.registry.get? id = none := by
      refine hidle.imp (mt hsame.active.1) fun hnone => ?_
      have hasked := hsame.asked
      unfold asked? at hasked
      rw [hnone, Option.map_none, Option.map_eq_none_iff] at hasked
      exact hasked
    obtain ⟨hsame', hlog'⟩ := ih (calm_visit h t e now ref).1 hstill
    exact ⟨hsame.trans hsame', hlog'.trans hlog⟩

/-! ### Additions -/

/-- Without queries that are over an addition is its visits. -/
theorem add_of_inert (hc : x.Consistent []) (h : x.Inert quotas) (harity : t.arity = x.arity) :
    x.add receive t ttl now (quotas, []) =
      (x.patterns.lookup t).foldl (visit receive t (.ofTtl now ttl) now)
        { index := x, state := (quotas, []) } := by
  have hcalm := (calm_foldl_visit (x.patterns.lookup t)
    (w := { index := x, state := (quotas, []) }) ⟨rfl, hc, h, rfl⟩ t (.ofTtl now ttl) now).1
  unfold add
  rw [if_neg (not_not_intro harity)]
  dsimp only
  generalize (x.patterns.lookup t).foldl (visit receive t (.ofTtl now ttl) now)
    { index := x, state := (quotas, []) } = w at hcalm ⊢
  rw [if_neg (by rw [hcalm.failed]; simp)]
  obtain ⟨index, state, changed, satisfied, failed⟩ := w
  have hnone : satisfied = [] := hcalm.satisfied
  subst hnone
  rfl

theorem add_of_arity (harity : t.arity ≠ x.arity) (s : Inbox) :
    x.add receive t ttl now s = { index := x, state := s } := if_pos harity

/-- The same queries are registered, with the same lifetimes, and the same are active. -/
theorem inert_add (hc : x.Consistent []) (h : x.Inert quotas) (t : Tuple) (ttl now : Nat) :
    (x.add receive t ttl now (quotas, [])).index.Inert
        (x.add receive t ttl now (quotas, [])).state.1 ∧
      (x.add receive t ttl now (quotas, [])).index.active = x.active ∧
      ∀ id, (x.add receive t ttl now (quotas, [])).index.settled? id = x.settled? id := by
  by_cases harity : t.arity = x.arity
  · rw [add_of_inert hc h harity]
    obtain ⟨hcalm, hactive⟩ := calm_foldl_visit (x.patterns.lookup t)
      (w := { index := x, state := (quotas, []) }) ⟨rfl, hc, h, rfl⟩ t (.ofTtl now ttl) now
    exact ⟨hcalm.inert, hactive, settled?_foldl_visit _ hc _ _ _⟩
  · rw [add_of_arity harity]
    exact ⟨h, rfl, fun _ => rfl⟩

/-- What is stored of a query that is followed grows by the hits of the tuple. -/
theorem stored_add (hc : x.Consistent []) (h : x.Inert quotas)
    (hf : x.Follows (.upTo now) id query L) (t : Tuple) (ttl : Nat) :
    (x.add receive t ttl now (quotas, [])).index.stored id =
      (hitsOf id query.pattern ⟨now, t, .ofTtl now ttl⟩).foldl Book.record (x.stored id) := by
  by_cases harity : t.arity = x.arity
  · rw [add_of_inert hc h harity, ← lookup_hits hc hf.asked]
    exact stored_foldl_visit (a := ⟨now, t, .ofTtl now ttl⟩) (x.patterns.lookup t)
      (w := { index := x, state := (quotas, []) }) ⟨rfl, hc, h, rfl⟩ hf
  · rw [add_of_arity harity, hitsOf_of_arity hc hf.asked harity]
    rfl

/-- A query that is not active or not registered is left as it is and sent nothing. -/
theorem idle_add (hc : x.Consistent []) (h : x.Inert quotas)
    (hidle : id ∉ x.active ∨ x.registry.get? id = none) (t : Tuple) (ttl now : Nat) :
    Unmoved id x (x.add receive t ttl now (quotas, [])).index ∧
      sentTo id (x.add receive t ttl now (quotas, [])).state.2 = [] := by
  by_cases harity : t.arity = x.arity
  · rw [add_of_inert hc h harity]
    exact idle_foldl_visit (x.patterns.lookup t) (w := { index := x, state := (quotas, []) })
      ⟨rfl, hc, h, rfl⟩ hidle
  · rw [add_of_arity harity]
    exact ⟨.refl, rfl⟩

end QueryIndex

end StandingQuery
