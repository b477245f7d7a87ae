import StandingQuery.Proofs.Consistency

/-! What an eviction takes out.

All that is due goes, queries with everything stored for them, and nothing else:
`get?_removeExpired`, `held_removeExpired` and `mem_active_removeExpired` say what is
left. For a query that stays, lives are cut: those that have ended are forgotten
(`life_removeExpired`). -/
namespace StandingQuery

namespace Life

/-- A life that has ended is as good as none. -/
def cut (now : Nat) (l : Life) : Life := if upTo now < l then l else ⊥

variable {l : Life} {now : Nat} {e : Expiration}

theorem cut_eq_coe_iff : l.cut now = e ↔ l = e ∧ .instant now < e := by
  unfold cut
  split
  · next h =>
    refine ⟨fun he => ⟨he, WithBot.coe_lt_coe.1 (he ▸ h)⟩, fun he => he.1⟩
  · next h =>
    refine iff_of_false WithBot.bot_ne_coe fun ⟨he, hlt⟩ => h ?_
    rw [he]
    exact WithBot.coe_lt_coe.2 hlt

/-- What is still valid is not changed. -/
theorem cut_sup : l.cut now ⊔ upTo now = l ⊔ upTo now := by
  unfold cut
  split
  · rfl
  · next h => rw [bot_sup_eq, sup_eq_right.2 (not_lt.1 h)]

theorem cut_le : l.cut now ≤ l := by
  unfold cut
  split
  · exact le_rfl
  · exact bot_le

/-- Two lives are the same if they end at the same expirations. -/
theorem ext_coe {l l' : Life} (h : ∀ e : Expiration, l = e ↔ l' = e) : l = l' := by
  induction hl : l using WithBot.recBotCoe with
  | coe e => exact ((h e).1 hl).symm
  | bot =>
    induction hl' : l' using WithBot.recBotCoe with
    | coe e => exact absurd ((h e).2 hl') (by rw [hl]; exact WithBot.bot_ne_coe)
    | bot => rfl

end Life

namespace QueryIndex
open JoinState

variable {x : QueryIndex} {id : QueryId} {q : Registered} {now : Nat} {due : List Mortal}
variable {n : SolutionId} {p : PartialSolution PatternSet} {s : EvictionReport × QueryIndex}

/-! ### Removing what has been struck out -/

theorem get?_evict (s : EvictionReport × QueryIndex) (e : Mortal) (id : QueryId) :
    (evict s e).2.registry.get? id = if e = .query id then none else s.2.registry.get? id := by
  cases e with
  | solution n =>
    rw [evict_solution, if_neg (by simp)]
  | query i =>
    rw [evict_query, get?_unregister]
    simp only [Mortal.query.injEq]

theorem get?_foldl_evict (due : List Mortal) (s : EvictionReport × QueryIndex) (id : QueryId) :
    (due.foldl evict s).2.registry.get? id =
      if .query id ∈ due then none else s.2.registry.get? id := by
  induction due generalizing s with
  | nil => rfl
  | cons e due ih =>
    rw [List.foldl_cons, ih, get?_evict]
    by_cases hdue : Mortal.query id ∈ due
    · rw [if_pos hdue, if_pos (List.mem_cons_of_mem _ hdue)]
    · by_cases he : e = .query id
      · rw [if_neg hdue, if_pos he, if_pos (he ▸ List.mem_cons_self)]
      · rw [if_neg hdue, if_neg he, if_neg]
        intro hmem
        rcases List.mem_cons.1 hmem with h | h
        · exact he h.symm
        · exact hdue h

theorem held_evict {struck : List Mortal} (hc : s.2.Consistent struck) (e : Mortal) :
    (evict s e).2.joins.held n = some p ↔
      s.2.joins.held n = some p ∧ e ≠ .solution n ∧ e ≠ .query p.query := by
  cases e with
  | query i =>
    rw [evict_query, held_unregister hc]
    refine and_congr_right fun _ => ?_
    rw [ne_eq, ne_eq, ne_eq, Mortal.query.injEq, eq_comm]
    exact (and_iff_right (by simp)).symm
  | solution m =>
    rw [evict_solution]
    dsimp only
    rw [held_remove]
    by_cases hm : m = n
    · rw [if_pos hm, hm]
      exact iff_of_false (by simp) fun h => h.2.1 rfl
    · rw [if_neg hm]
      exact (and_iff_left ⟨fun h => hm (Mortal.solution.inj h), by simp⟩).symm

theorem held_foldl_evict (hc : s.2.Consistent due) :
    (due.foldl evict s).2.joins.held n = some p ↔
      s.2.joins.held n = some p ∧ .solution n ∉ due ∧ .query p.query ∉ due := by
  induction due generalizing s with
  | nil => simp
  | cons e due ih =>
    rw [List.foldl_cons, ih (consistent_evict hc), held_evict hc, List.mem_cons, List.mem_cons,
      not_or, not_or]
    constructor
    · intro ⟨⟨hp, hn, hq⟩, hns, hqs⟩
      exact ⟨hp, ⟨hn.symm, hns⟩, hq.symm, hqs⟩
    · intro ⟨hp, ⟨hn, hns⟩, hq, hqs⟩
      exact ⟨⟨hp, Ne.symm hn, Ne.symm hq⟩, hns, hqs⟩

theorem mem_active_evict {e : Mortal} (he : e ≠ .query id) :
    id ∈ (evict s e).2.active ↔ id ∈ s.2.active := by
  cases e with
  | solution n => rw [evict_solution]
  | query i =>
    rw [evict_query]
    exact mem_active_unregister fun h => he (congrArg _ h.symm)

/-- A query that is taken out is not active any more. -/
theorem not_mem_active_unregister (hq : x.registry.get? id = some q) :
    id ∉ (x.unregister id).2.active := by
  rw [unregister_eq hq]
  simp

theorem mem_active_of_evict {e : Mortal} (h : id ∈ (evict s e).2.active) : id ∈ s.2.active := by
  by_cases he : e = .query id
  · subst he
    rw [evict_query] at h
    cases hq : s.2.registry.get? id with
    | none => rwa [unregister_none hq] at h
    | some q => exact absurd h (not_mem_active_unregister hq)
  · exact (mem_active_evict he).1 h

theorem mem_active_of_foldl_evict (h : id ∈ (due.foldl evict s).2.active) : id ∈ s.2.active := by
  induction due generalizing s with
  | nil => exact h
  | cons e due ih => exact mem_active_of_evict (ih h)

/-- Of the queries that are registered, those that are not due stay active. -/
theorem mem_active_foldl_evict (hq : s.2.registry.get? id = some q) :
    id ∈ (due.foldl evict s).2.active ↔ id ∈ s.2.active ∧ .query id ∉ due := by
  induction due generalizing s with
  | nil => simp
  | cons e due ih =>
    rw [List.foldl_cons]
    by_cases he : e = .query id
    · subst he
      refine iff_of_false (fun h => ?_) fun h => h.2 List.mem_cons_self
      exact not_mem_active_unregister hq (mem_active_of_foldl_evict h)
    · rw [ih (by rw [get?_evict, if_neg he, hq]), mem_active_evict he, List.mem_cons, not_or]
      exact and_congr_right fun _ => (and_iff_right (Ne.symm he)).symm

/-- What is not registered cannot be taken out. -/
theorem mem_active_foldl_evict_of_none (hq : s.2.registry.get? id = none) :
    id ∈ (due.foldl evict s).2.active ↔ id ∈ s.2.active := by
  induction due generalizing s with
  | nil => rfl
  | cons e due ih =>
    rw [List.foldl_cons, ih (by rw [get?_evict, hq, ite_self])]
    by_cases he : e = .query id
    · subst he
      rw [evict_query, unregister_none hq]
    · exact mem_active_evict he

theorem settings_foldl_evict (due : List Mortal) (s : EvictionReport × QueryIndex) :
    (due.foldl evict s).2.settings = s.2.settings := by
  induction due generalizing s with
  | nil => rfl
  | cons e due ih =>
    rw [List.foldl_cons, ih]
    cases e with
    | query i => exact settings_unregister s.2 i
    | solution n =>
      rw [evict_solution]
      exact congrArg (Settings.mk s.2.arity s.2.registry.maxQueries) strategy_remove

/-! ### Removing what is due -/

theorem mem_due_query (hc : x.Consistent []) (hq : x.registry.get? id = some q) :
    .query id ∈ x.expirations.due now ↔ q.expiration.expiredAt now = true := by
  rw [Expirations.mem_due hc.expirations, hc.tracked_query, hq, Option.bind_some]
  cases q.expiration <;> simp [Expiration.millis?, Expiration.expiredAt]

theorem mem_due_solution (hc : x.Consistent []) (hp : x.joins.held n = some p) :
    .solution n ∈ x.expirations.due now ↔ p.expiration.expiredAt now = true := by
  rw [Expirations.mem_due hc.expirations, hc.trackedBy, hp, Option.bind_some]
  cases p.expiration <;> simp [Expiration.millis?, Expiration.expiredAt]

/-- The index with all that is due struck out. -/
theorem consistent_struck (hc : x.Consistent []) (now : Nat) :
    Consistent { x with expirations := (x.expirations.removeExpired now).2 }
      (x.expirations.due now) where
  accepted id q hq := (hc.accepted id q hq).of_arity rfl
  joins := hc.joins
  held := hc.held
  expirations := Expirations.sound_removeExpired hc.expirations now
  tracked e := by
    have hold := hc.tracked e
    rw [if_neg List.not_mem_nil] at hold
    refine Expirations.find?_removeExpired.trans ?_
    rw [hold]
    rfl
  patterns := hc.patterns

theorem consistent_removeExpired (hc : x.Consistent []) (now : Nat) :
    (x.removeExpired now).2.Consistent [] :=
  consistent_foldl_evict (x.expirations.due now) (consistent_struck hc now)

theorem settings_removeExpired (x : QueryIndex) (now : Nat) :
    (x.removeExpired now).2.settings = x.settings := settings_foldl_evict _ _

theorem get?_removeExpired (hc : x.Consistent []) (now : Nat) (id : QueryId) :
    (x.removeExpired now).2.registry.get? id =
      (x.registry.get? id).filter fun q => !q.expiration.expiredAt now := by
  refine (get?_foldl_evict _ _ id).trans ?_
  dsimp only
  cases hq : x.registry.get? id with
  | none => rw [ite_self, Option.filter_none]
  | some q =>
    rw [Option.filter_some]
    by_cases hdue : q.expiration.expiredAt now = true
    · rw [if_pos ((mem_due_query hc hq).2 hdue), hdue]
      rfl
    · rw [if_neg (mt (mem_due_query hc hq).1 hdue), Bool.eq_false_iff.2 hdue]
      rfl

/-- What is left is what is valid and belongs to a query that stays. -/
theorem held_removeExpired (hc : x.Consistent []) :
    (x.removeExpired now).2.joins.held n = some p ↔ x.joins.held n = some p ∧
      .instant now < p.expiration ∧ ((x.removeExpired now).2.registry.get? p.query).isSome := by
  refine (held_foldl_evict (consistent_struck hc now)).trans (and_congr_right fun hp => ?_)
  dsimp only at hp
  obtain ⟨q, hq, -⟩ := hc.held n p hp
  rw [mem_due_solution hc hp, mem_due_query hc hq, get?_removeExpired hc, hq, Option.filter_some,
    Bool.not_eq_true, Bool.not_eq_true, Expiration.not_expiredAt_iff]
  cases q.expiration.expiredAt now <;> simp

/-- Of what is stored for a query that stays, what has ended is forgotten. -/
theorem life_removeExpired (hc : x.Consistent [])
    (hid : ((x.removeExpired now).2.registry.get? id).isSome) (P : PatternSet) (b : Binding) :
    (x.removeExpired now).2.joins.life ⟨id, P, b⟩ = (x.joins.life ⟨id, P, b⟩).cut now := by
  refine Life.ext_coe fun e => ?_
  rw [life_eq_coe_iff (consistent_removeExpired hc now).joins, Life.cut_eq_coe_iff,
    life_eq_coe_iff hc.joins]
  constructor
  · intro ⟨n, p, hp, hk, he⟩
    obtain ⟨hp, halive, -⟩ := (held_removeExpired hc).1 hp
    exact ⟨⟨n, p, hp, hk, he⟩, he ▸ halive⟩
  · intro ⟨⟨n, p, hp, hk, he⟩, halive⟩
    have hquery : p.query = id := congrArg PartialSolution.Key.query hk
    exact ⟨n, p, (held_removeExpired hc).2 ⟨hp, he ▸ halive, hquery ▸ hid⟩, hk, he⟩

/-- A registered query is active afterwards if it was and has not expired. -/
theorem mem_active_removeExpired (hc : x.Consistent []) (hq : x.registry.get? id = some q) :
    id ∈ (x.removeExpired now).2.active ↔ id ∈ x.active ∧ q.expiration.expiredAt now = false := by
  refine (mem_active_foldl_evict (s := ({}, { x with
    expirations := (x.expirations.removeExpired now).2 })) hq).trans ?_
  dsimp only
  rw [mem_due_query hc hq, Bool.not_eq_true]

theorem mem_active_of_removeExpired (h : id ∈ (x.removeExpired now).2.active) : id ∈ x.active :=
  mem_active_of_foldl_evict (s := ({}, { x with
    expirations := (x.expirations.removeExpired now).2 })) h

end QueryIndex

end StandingQuery
