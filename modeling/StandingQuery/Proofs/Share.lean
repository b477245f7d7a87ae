import StandingQuery.Proofs.JoinView
import StandingQuery.Proofs.Strategies

/-! What an index has of one query.

The `Share` of a query is its record, whether it is active, and what is stored for it.
Each operation does to the share of a query what it does to a share alone: the effect
depends on nothing else in the index, and an operation on another query has none
(`share_register`, `share_unregister`, `share_renew`, `share_deactivate`,
`share_removeExpired`, `share_clear`). All that can be asked about a query is read off its
share (`glance_congr`). -/
namespace StandingQuery
open Std

namespace JoinState

variable {j j' : JoinState} {id : QueryId}

theorem contentsOf_congr
    (h : ∀ n p, p.query = id → (j'.held n = some p ↔ j.held n = some p)) :
    j'.contentsOf id = j.contentsOf id := by
  have hfilter : j'.contentsOf id = (j.contentsOf id).filter fun _ => true :=
    contentsOf_filter fun n p hp => (h n p hp).trans (and_iff_left rfl).symm
  rwa [List.filter_true] at hfilter

theorem contentsOf_eq_nil (h : ∀ n p, j.held n = some p → p.query ≠ id) : j.contentsOf id = [] := by
  have hfilter : j.contentsOf id = (j.contentsOf id).filter fun _ => false :=
    contentsOf_filter fun n p hp =>
      iff_of_false (fun hheld => h n p hheld hp) fun hheld => Bool.false_ne_true hheld.2
  rwa [List.filter_false] at hfilter

end JoinState

namespace QueryIndex
open JoinState

/-- The record of a query, whether it is active, and what is stored for it, in order. -/
structure Share where
  record : Option Registered
  active : Bool
  stored : List (PartialSolution PatternSet)

def share (x : QueryIndex) (id : QueryId) : Share :=
  ⟨x.registry.get? id, x.active.contains id, x.joins.contentsOf id⟩

namespace Share

/-- A registered query is taken out. -/
def drop (s : Share) : Share := if s.record.isSome then ⟨none, false, []⟩ else s

/-- The query is taken out if it has expired, or else what has expired of what is stored. -/
def expire (s : Share) (now : Nat) : Share :=
  match s.record with
  | none => s
  | some q =>
    if q.expiration.expiredAt now then s.drop
    else { s with stored := s.stored.filter fun p => !p.expiration.expiredAt now }

/-- An active query is given another lifetime. -/
def renew (s : Share) (e : Expiration) : Share :=
  if s.active then { s with record := s.record.map fun q => { q with expiration := e } } else s

end Share

variable {x y : QueryIndex} {id i : QueryId} {q : Registered} {now ttl : Nat} {struck : List Mortal}

theorem Consistent.contentsOf_eq_nil (hc : x.Consistent struck) (hq : x.registry.get? id = none) :
    x.joins.contentsOf id = [] :=
  JoinState.contentsOf_eq_nil fun n p hp hid => by
    obtain ⟨q, hq', -⟩ := hc.held n p hp
    rw [hid, hq] at hq'
    cases hq'

/-! ### Taking out -/

theorem share_unregister (hc : x.Consistent struck) (i id : QueryId) :
    (x.unregister i).2.share id = if i = id then (x.share id).drop else x.share id := by
  by_cases hi : i = id
  · subst hi
    rw [if_pos rfl]
    cases hq : x.registry.get? i with
    | none =>
      rw [unregister_none hq]
      unfold Share.drop share
      rw [hq, Option.isSome_none, if_neg Bool.false_ne_true]
    | some q =>
      have hgone : (x.unregister i).2.registry.get? i = none := by
        rw [get?_unregister, if_pos rfl]
      unfold Share.drop share
      rw [hgone, contains_eq_false (not_mem_active_unregister hq),
        JoinState.contentsOf_eq_nil fun n p hp => ((held_unregister hc i).1 hp).2, hq,
        Option.isSome_some, if_pos rfl]
  · unfold share
    rw [if_neg hi, get?_unregister, if_neg hi, contains_congr (mem_active_unregister (Ne.symm hi)),
      contentsOf_congr fun n p hp => ?_]
    rw [held_unregister hc]
    exact and_iff_left fun hp' => hi (hp'.symm.trans hp)

theorem share_foldl_unregister (ids : List QueryId) (hc : x.Consistent struck) (id : QueryId) :
    (ids.foldl (fun x i => (x.unregister i).2) x).share id =
      if id ∈ ids then (x.share id).drop else x.share id := by
  have hdropped : (x.share id).drop.drop = (x.share id).drop := by
    unfold Share.drop
    split
    · rfl
    · rfl
  induction ids generalizing x with
  | nil => rfl
  | cons i ids ih =>
    have hfirst := share_unregister hc i id
    rw [List.foldl_cons]
    by_cases hi : i = id
    · rw [if_pos hi] at hfirst
      rw [ih (consistent_unregister hc i) (by rw [hfirst, hdropped, hdropped]), hfirst, hdropped,
        ite_self, if_pos (hi ▸ List.mem_cons_self)]
    · rw [if_neg hi] at hfirst
      rw [ih (consistent_unregister hc i) (by rw [hfirst, hdropped]), hfirst]
      simp only [List.mem_cons, Ne.symm hi, false_or]

theorem share_removeExpired (hc : x.Consistent []) (now : Nat) (id : QueryId) :
    (x.removeExpired now).2.share id = (x.share id).expire now := by
  have hget := get?_removeExpired hc now id
  unfold Share.expire share
  cases hq : x.registry.get? id with
  | none =>
    dsimp only
    rw [hq, Option.filter_none] at hget
    have hactive : id ∈ (x.removeExpired now).2.active ↔ id ∈ x.active :=
      mem_active_foldl_evict_of_none hq
    rw [hget, contains_congr hactive, (consistent_removeExpired hc now).contentsOf_eq_nil hget,
      hc.contentsOf_eq_nil hq]
  | some q =>
    dsimp only
    rw [hq, Option.filter_some] at hget
    have hactive : id ∈ (x.removeExpired now).2.active ↔
        id ∈ x.active ∧ q.expiration.expiredAt now = false := mem_active_removeExpired hc hq
    by_cases hover : q.expiration.expiredAt now = true
    · rw [hover, Bool.not_true, if_neg Bool.false_ne_true] at hget
      rw [if_pos hover, Share.drop, if_pos (by exact Option.isSome_some), hget,
        (consistent_removeExpired hc now).contentsOf_eq_nil hget, contains_eq_false fun hin => ?_]
      rw [(hactive.1 hin).2] at hover
      cases hover
    · rw [Bool.eq_false_iff.2 hover, Bool.not_false, if_pos rfl] at hget
      have hstored : (x.removeExpired now).2.joins.contentsOf id =
          (x.joins.contentsOf id).filter fun p => !p.expiration.expiredAt now := by
        refine contentsOf_filter fun n p hp => ?_
        rw [held_removeExpired hc, hp, hget, Bool.not_eq_true', Expiration.not_expiredAt_iff]
        exact and_congr_right fun _ => and_iff_left rfl
      rw [if_neg hover, hget, hstored,
        contains_congr (hactive.trans (and_iff_left (Bool.eq_false_iff.2 hover)))]

theorem share_clear (hc : x.Consistent []) (id : QueryId) : x.clear.share id = (x.share id).drop := by
  have hnone : x.clear.registry.get? id = none := settled?_eq_none.1 (settled?_clear x id)
  have hactive : id ∈ x.clear.active ↔ id ∈ x.active ∧ x.registry.get? id = none := mem_active_clear
  unfold Share.drop share
  rw [hnone, (consistent_clear x).contentsOf_eq_nil hnone]
  cases hq : x.registry.get? id with
  | none =>
    rw [Option.isSome_none, if_neg Bool.false_ne_true, hc.contentsOf_eq_nil hq,
      contains_congr (hactive.trans (and_iff_left hq))]
  | some q =>
    rw [Option.isSome_some, if_pos rfl, contains_eq_false fun hin => ?_]
    rw [hq] at hactive
    cases (hactive.1 hin).2

/-! ### Nothing left -/

/-- Nothing is left of a query in an index. -/
structure Forgotten (x : QueryIndex) (id : QueryId) : Prop where
  registered : id ∉ x.queryIds
  inactive : id ∉ x.active
  stored : ∀ n p, x.joins.held n = some p → p.query ≠ id
  tracked : x.expirations.find? (.query id) = none
  /-- The expirations of partial solutions are those of other queries. -/
  others : ∀ n t, x.expirations.find? (.solution n) = some t →
    ∃ p, x.joins.held n = some p ∧ p.query ≠ id

theorem Consistent.forgotten (hc : x.Consistent [])
    (hregistered : x.contains id = false) (hinactive : id ∉ x.active) : x.Forgotten id := by
  have hnone : x.registry.get? id = none := by
    rwa [contains, Registry.contains_eq, Option.isSome_eq_false_iff,
      Option.isNone_iff_eq_none] at hregistered
  have hstored : ∀ n p, x.joins.held n = some p → p.query ≠ id := by
    intro n p hp hid
    obtain ⟨q, hq, -⟩ := hc.held n p hp
    rw [hid, hnone] at hq
    cases hq
  refine ⟨fun hin => ?_, hinactive, hstored, ?_, fun n t ht => ?_⟩
  · have hsome := Registry.mem_ids.1 hin
    rw [hnone] at hsome
    cases hsome
  · rw [hc.tracked_query, hnone]
    rfl
  · rw [hc.trackedBy, Option.bind_eq_some_iff] at ht
    obtain ⟨p, hp, -⟩ := ht
    exact ⟨p, hp, hstored n p hp⟩

/-! ### Putting in -/

theorem share_register {r : Registration} (hc : x.Consistent []) (hr : x.register r now = .ok y)
    (id : QueryId) : (y.activate r.id).share id =
      if r.id = id then ⟨some (x.entry r now), true, []⟩ else x.share id := by
  have hget : (y.activate r.id).registry.get? id =
      if r.id = id then some (x.entry r now) else x.registry.get? id := get?_register hr id
  obtain ⟨hnone, hy⟩ := register_eq_ok hr
  have hjoins : (y.activate r.id).joins = x.joins := by rw [hy]; rfl
  have hactive : (y.activate r.id).active = x.active.insert r.id := by rw [hy]; rfl
  unfold share
  rw [hget, hjoins, hactive]
  by_cases hid : r.id = id
  · rw [if_pos hid, if_pos hid, ← hid, hc.contentsOf_eq_nil hnone, ExtTreeSet.contains_insert_self]
  · rw [if_neg hid, if_neg hid, contains_congr (b := x.active)]
    rw [ExtTreeSet.mem_insert, Std.compare_eq_iff_eq]
    exact or_iff_right hid

theorem share_renew (hc : x.Consistent []) (i : QueryId) (ttl now : Nat) (id : QueryId) :
    (x.renew i ttl now).2.share id =
      if i = id then (x.share id).renew (.ofTtl now ttl) else x.share id := by
  obtain ⟨hactive, hjoins⟩ := renew_frame x i ttl now
  unfold Share.renew share
  rw [hactive, hjoins, get?_renew hc]
  dsimp only
  by_cases hi : i = id
  · subst hi
    rw [if_pos rfl]
    by_cases hin : i ∈ x.active
    · rw [if_pos ⟨rfl, hin⟩, if_pos (ExtTreeSet.mem_iff_contains.1 hin)]
    · rw [if_neg fun h => hin h.2, if_neg fun h => hin (ExtTreeSet.mem_iff_contains.2 h)]
  · rw [if_neg fun h => hi h.1, if_neg hi]

theorem share_deactivate (x : QueryIndex) (i id : QueryId) : (x.deactivate i).share id =
    if i = id then { x.share id with active := false } else x.share id := by
  unfold share deactivate
  dsimp only
  split
  · next hi => rw [hi, contains_eq_false (by simp)]
  · next hi =>
    rw [contains_congr (b := x.active)]
    rw [ExtTreeSet.mem_erase, ne_eq, Std.compare_eq_iff_eq]
    exact and_iff_right hi

/-! ### Looking in -/

/-- What callers can see of one query. -/
structure Glance where
  info? : Option QueryInfo
  remembered? : Option Nat
  partialCount : Nat
deriving DecidableEq

def glance (x : QueryIndex) (id : QueryId) : Glance :=
  ⟨x.info? id, x.remembered? id, x.partialCountOf id⟩

theorem glance_congr (hx : x.Consistent []) (hy : y.Consistent []) (h : y.share id = x.share id) :
    y.glance id = x.glance id := by
  obtain ⟨hrecord, hactive, hstored⟩ := Share.mk.inj h
  have hinfo : y.info? id = x.info? id := by
    unfold info?
    rw [hrecord]
    refine Option.map_congr fun q hq => ?_
    have hid := (hx.accepted id q (Option.mem_def.1 hq)).id
    unfold Registered.info
    rw [hid, hactive]
  unfold glance remembered? partialCountOf
  rw [hinfo, hrecord, JoinState.sizeOf_eq hx.joins, JoinState.sizeOf_eq hy.joins, hstored]

end QueryIndex

end StandingQuery
