import StandingQuery.Proofs.Inert
import StandingQuery.Proofs.Operations

/-! Two indexes in lockstep.

Two indexes with different joins are `Alike` when they have the same queries with the
same lifetimes, the same of them active, and the same lives for single matches. If no
subscriber reacts, every operation keeps them so: an addition stores the same hits
(`alike_add`), an eviction forgets the same matches (`alike_removeExpired`). -/
namespace StandingQuery
open Std

namespace QueryIndex
open JoinState Watched GraphPattern

/-- The same queries with the same lifetimes, the same of them active, and the same lives for
single matches. -/
structure Alike (x y : QueryIndex) : Prop where
  settled : ∀ id, y.settled? id = x.settled? id
  active : ∀ id, id ∈ y.active ↔ id ∈ x.active
  stored : ∀ id, y.stored id = x.stored id

variable {x y : QueryIndex} {id i : QueryId} {query : Query} {q : Registered} {now ttl : Nat}
variable {quotas : ExtTreeMap QueryId Nat} {t : Tuple}

theorem settled?_eq_none : x.settled? id = none ↔ x.registry.get? id = none :=
  Option.map_eq_none_iff

theorem isSome_get? (x : QueryIndex) (id : QueryId) :
    (x.registry.get? id).isSome = (x.settled? id).isSome := Option.isSome_map.symm

theorem Alike.asked (h : Alike x y) (id : QueryId) : y.asked? id = x.asked? id := by
  rw [asked?_eq, asked?_eq, h.settled]

/-- Nothing is stored for a query that is not registered. -/
theorem stored_of_none (hc : x.Consistent []) (h : x.settled? id = none) :
    x.stored id = fun _ _ => ⊥ := by
  funext i m
  exact hc.life_eq_bot (settled?_eq_none.1 h) _ _

/-! ### Unregistering and renewing -/

theorem settled?_unregister (x : QueryIndex) (i id : QueryId) :
    (x.unregister i).2.settled? id = if i = id then none else x.settled? id := by
  unfold settled?
  rw [get?_unregister]
  split <;> rfl

theorem mem_active_unregister_iff : id ∈ (x.unregister i).2.active ↔
    id ∈ x.active ∧ (i = id → x.settled? id = none) := by
  by_cases hi : i = id
  · subst hi
    cases hq : x.registry.get? i with
    | none =>
      rw [unregister_none hq]
      exact (and_iff_left fun _ => settled?_eq_none.2 hq).symm
    | some q =>
      refine iff_of_false (not_mem_active_unregister hq) fun h => ?_
      have hnone := settled?_eq_none.1 (h.2 rfl)
      rw [hq] at hnone
      cases hnone
  · rw [mem_active_unregister (Ne.symm hi)]
    exact (and_iff_left fun h => absurd h hi).symm

theorem alike_unregister (h : Alike x y) (hx : x.Consistent []) (hy : y.Consistent [])
    (i : QueryId) : Alike (x.unregister i).2 (y.unregister i).2 where
  settled id := by rw [settled?_unregister, settled?_unregister, h.settled]
  active id := by rw [mem_active_unregister_iff, mem_active_unregister_iff, h.active, h.settled]
  stored id := by
    by_cases hi : i = id
    · have hnone : ∀ z : QueryIndex, (z.unregister i).2.settled? id = none := fun z => by
        rw [settled?_unregister, if_pos hi]
      rw [stored_of_none (consistent_unregister hx i) (hnone x),
        stored_of_none (consistent_unregister hy i) (hnone y)]
    · rw [(unmoved_unregister hx hi).stored, (unmoved_unregister hy hi).stored, h.stored]

theorem settled?_renew (hc : x.Consistent []) (i : QueryId) (ttl now : Nat) (id : QueryId) :
    (x.renew i ttl now).2.settled? id = if i = id ∧ i ∈ x.active
      then (x.settled? id).map fun q => { q with expiration := .ofTtl now ttl }
      else x.settled? id := by
  unfold settled?
  rw [get?_renew hc]
  split
  · rw [Option.map_map, Option.map_map]
    rfl
  · rfl

theorem alike_renew (h : Alike x y) (hx : x.Consistent []) (hy : y.Consistent []) (i : QueryId)
    (ttl now : Nat) : Alike (x.renew i ttl now).2 (y.renew i ttl now).2 where
  settled id := by simp only [settled?_renew hx, settled?_renew hy, h.active, h.settled]
  active id := by
    rw [(unmoved_renew hx i ttl now id).active, (unmoved_renew hy i ttl now id).active, h.active]
  stored id := by
    rw [(unmoved_renew hx i ttl now id).stored, (unmoved_renew hy i ttl now id).stored, h.stored]

/-! ### Evicting and clearing -/

theorem settled?_removeExpired (hc : x.Consistent []) (now : Nat) (id : QueryId) :
    (x.removeExpired now).2.settled? id =
      (x.settled? id).filter fun q => !q.expiration.expiredAt now := by
  unfold settled?
  rw [get?_removeExpired hc]
  cases x.registry.get? id with
  | none => rfl
  | some q =>
    have hsame : q.settled.expiration = q.expiration := rfl
    rw [Option.filter_some, Option.map_some, Option.filter_some, hsame]
    split <;> rfl

theorem mem_active_removeExpired_iff (hc : x.Consistent []) :
    id ∈ (x.removeExpired now).2.active ↔
      id ∈ x.active ∧ ∀ q, x.settled? id = some q → q.expiration.expiredAt now = false := by
  cases hq : x.registry.get? id with
  | none =>
    have hnone := settled?_eq_none.2 hq
    rw [hnone]
    refine Iff.trans ?_ (and_iff_left fun q h => by cases h).symm
    exact mem_active_foldl_evict_of_none hq
  | some q =>
    rw [mem_active_removeExpired hc hq]
    refine and_congr_right fun _ => ?_
    unfold settled?
    rw [hq, Option.map_some]
    constructor
    · intro halive r hr
      cases hr
      exact halive
    · intro h
      exact h q.settled rfl

theorem alike_removeExpired (h : Alike x y) (hx : x.Consistent []) (hy : y.Consistent [])
    (now : Nat) : Alike (x.removeExpired now).2 (y.removeExpired now).2 where
  settled id := by rw [settled?_removeExpired hx, settled?_removeExpired hy, h.settled]
  active id := by
    rw [mem_active_removeExpired_iff hx, mem_active_removeExpired_iff hy, h.active, h.settled]
  stored id := by
    have hsettled : (y.removeExpired now).2.settled? id = (x.removeExpired now).2.settled? id := by
      rw [settled?_removeExpired hx, settled?_removeExpired hy, h.settled]
    cases hx' : (x.removeExpired now).2.settled? id with
    | none =>
      rw [stored_of_none (consistent_removeExpired hx now) hx',
        stored_of_none (consistent_removeExpired hy now) (hsettled.trans hx')]
    | some q =>
      have hstays : ∀ {z : QueryIndex}, z.settled? id = some q → (z.registry.get? id).isSome := by
        intro z hz
        obtain ⟨r, hr, -⟩ := Option.map_eq_some_iff.1 hz
        rw [hr]
        rfl
      funext j m
      unfold stored
      rw [life_removeExpired hx (hstays hx'), life_removeExpired hy (hstays (hsettled.trans hx'))]
      exact congrArg _ (congrFun (congrFun (h.stored id) j) m)

theorem settled?_clear (x : QueryIndex) (id : QueryId) : x.clear.settled? id = none := by
  simp [settled?, clear, Registry.get?, Registry.clear]

theorem alike_clear (h : Alike x y) : Alike x.clear y.clear where
  settled id := by rw [settled?_clear, settled?_clear]
  active id := by
    rw [mem_active_clear, mem_active_clear, h.active, ← settled?_eq_none, ← settled?_eq_none,
      h.settled]
  stored id := by
    rw [stored_of_none (consistent_clear x) (settled?_clear x id),
      stored_of_none (consistent_clear y) (settled?_clear y id)]

/-! ### Registering and deactivating -/

theorem settled?_register {r : Registration} (hr : x.register r now = .ok y) (id : QueryId) :
    (y.activate r.id).settled? id =
      if r.id = id then some (x.entry r now).settled else x.settled? id := by
  unfold settled? activate
  dsimp only
  rw [get?_register hr]
  split <;> rfl

theorem alike_register {x' y' : QueryIndex} {r : Registration} (h : Alike x y)
    (hx : x.register r now = .ok x') (hy : y.register r now = .ok y') :
    Alike (x'.activate r.id) (y'.activate r.id) := by
  have hentry : (y.entry r now).settled = (x.entry r now).settled := rfl
  have hsettled := fun id => settled?_register hx id
  have hsettled' := fun id => settled?_register hy id
  obtain ⟨-, rfl⟩ := register_eq_ok hx
  obtain ⟨-, rfl⟩ := register_eq_ok hy
  constructor
  · intro id
    rw [hsettled, hsettled', hentry, h.settled]
  · intro id
    unfold activate
    dsimp only
    rw [ExtTreeSet.mem_insert, ExtTreeSet.mem_insert, h.active]
  · exact h.stored

theorem alike_deactivate (h : Alike x y) (i : QueryId) :
    Alike (x.deactivate i) (y.deactivate i) where
  settled := h.settled
  active id := by
    unfold deactivate
    dsimp only
    rw [ExtTreeSet.mem_erase, ExtTreeSet.mem_erase, h.active]
  stored := h.stored

/-! ### Adding -/

/-- Every query that is registered and active is followed. -/
def Followed (x : QueryIndex) (now : Nat) : Prop :=
  ∀ id query, x.asked? id = some query → id ∈ x.active → ∃ L, x.Follows (.upTo now) id query L

theorem alike_add {quotas' : ExtTreeMap QueryId Nat} (h : Alike x y) (hx : x.Consistent [])
    (hy : y.Consistent []) (hix : x.Inert quotas) (hiy : y.Inert quotas') (hfx : x.Followed now)
    (hfy : y.Followed now) (t : Tuple) (ttl : Nat) :
    Alike (x.add receive t ttl now (quotas, [])).index
      (y.add receive t ttl now (quotas', [])).index := by
  obtain ⟨-, hactive, hsettled⟩ := inert_add hx hix t ttl now
  obtain ⟨-, hactive', hsettled'⟩ := inert_add hy hiy t ttl now
  constructor
  · intro id
    rw [hsettled, hsettled', h.settled]
  · intro id
    rw [hactive, hactive', h.active]
  · intro id
    by_cases hidle : id ∉ x.active ∨ x.registry.get? id = none
    · have hidle' : id ∉ y.active ∨ y.registry.get? id = none := by
        rw [h.active, ← settled?_eq_none, h.settled, settled?_eq_none]
        exact hidle
      rw [(idle_add hx hix hidle t ttl now).1.stored, (idle_add hy hiy hidle' t ttl now).1.stored,
        h.stored]
    · rw [not_or, not_not] at hidle
      obtain ⟨hin, hregistered⟩ := hidle
      obtain ⟨q, hq⟩ := Option.ne_none_iff_exists'.1 hregistered
      have hasked : x.asked? id = some q.asked := asked?_eq_some.2 ⟨q, hq, rfl⟩
      have hasked' := (h.asked id).trans hasked
      obtain ⟨L, hf⟩ := hfx id _ hasked hin
      obtain ⟨L', hf'⟩ := hfy id _ hasked' ((h.active id).2 hin)
      rw [stored_add hx hix hf, stored_add hy hiy hf', h.stored]

end QueryIndex

end StandingQuery
