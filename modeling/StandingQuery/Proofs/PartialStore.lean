import StandingQuery.Join.PartialStore
import StandingQuery.Proofs.Expirations

/-! What a store of partial solutions holds.

A store is a function from numbers to partial solutions with two indexes over it.
`Sound` says that the indexes list exactly what is held, that no bucket is empty and
that numbers are handed out in order; every operation keeps it. Seen by its keys, a
sound store gives every key a `life`: storing a partial solution takes the supremum
of the life of its key and its expiration (`life_insert_self`), and that is a change
exactly when the life gets longer (`insert_changes_iff`). Whatever else lists what is
held has to follow what can be found by number (`exists_get?_insert`, `exists_get?_remove`). -/
set_option linter.unusedSectionVars false

namespace StandingQuery
open Std

namespace PartialStore
open PartialSolution

variable {Part : Type} [Ord Part] [TransOrd Part] [LawfulEqOrd Part]
variable {s : PartialStore Part} {p q : PartialSolution Part} {k : Key Part} {n m : SolutionId}
variable {query : QueryId}

/-- The indexes list what is held, and only that. -/
structure Sound (s : PartialStore Part) : Prop where
  byKey : ∀ (k : Key Part) (n : SolutionId),
    s.byKey[k]? = some n ↔ ∃ p, s.get? n = some p ∧ p.key = k
  probes : ∀ (r : Probe Part) (n : SolutionId),
    n ∈ s.probes.find r ↔ ∃ p, s.get? n = some p ∧ r ∈ p.probes
  tidyProbes : s.probes.Tidy
  fresh : ∀ (n : SolutionId) (p : PartialSolution Part), s.get? n = some p → n < s.nextId

/-- Equal keys are held once. -/
theorem Sound.eq_of_key (h : s.Sound) (hp : s.get? n = some p) (hq : s.get? m = some q)
    (hk : p.key = q.key) : n = m := by
  have hn := (h.byKey p.key n).2 ⟨p, hp, rfl⟩
  have hm := (h.byKey p.key m).2 ⟨q, hq, hk.symm⟩
  exact Option.some.inj (hn.symm.trans hm)

theorem sound_empty (nextId : SolutionId) : Sound ({ nextId } : PartialStore Part) where
  byKey := by simp [get?]
  probes := by simp [get?, Buckets.find_empty]
  tidyProbes := Buckets.tidy_empty
  fresh := by simp [get?]

/-! ### Storing -/

/-- The store with the expiration of the partial solution under `n` replaced. -/
def extend (s : PartialStore Part) (n : SolutionId) (p : PartialSolution Part) :
    PartialStore Part :=
  { s with solutions := s.solutions.insert n p }

/-- The store with a new partial solution under the next number. -/
def push (s : PartialStore Part) (p : PartialSolution Part) : PartialStore Part :=
  { nextId := s.nextId + 1
    solutions := s.solutions.insert s.nextId p
    byKey := s.byKey.insert p.key s.nextId
    probes := p.probes.foldl (fun b probe => b.add probe s.nextId) s.probes }

/-- What storing comes to: nothing, a longer life, or a new number. -/
theorem insert_cases (h : s.Sound) (p : PartialSolution Part) :
    (∃ n q, s.get? n = some q ∧ q.key = p.key ∧ ¬ q.expiration < p.expiration ∧
      s.insert p = (.unchanged, s)) ∨
    (∃ n q, s.get? n = some q ∧ q.key = p.key ∧ q.expiration < p.expiration ∧
      s.insert p = (.refreshed n, s.extend n p)) ∨
    ((∀ n q, s.get? n = some q → q.key ≠ p.key) ∧ s.insert p = (.inserted s.nextId, s.push p)) := by
  unfold insert
  cases hk : s.byKey[p.key]? with
  | some n =>
    obtain ⟨q, hq, hqk⟩ := (h.byKey _ n).1 hk
    have hq' : s.solutions[n]? = some q := hq
    simp only [hq']
    by_cases hlt : q.expiration < p.expiration
    · have hpq : { q with expiration := p.expiration } = p := by
        unfold key at hqk
        cases p
        cases q
        simp_all
      refine .inr (.inl ⟨n, q, hq, hqk, hlt, ?_⟩)
      rw [if_pos hlt, hpq]
      rfl
    · exact .inl ⟨n, q, hq, hqk, hlt, by rw [if_neg hlt]⟩
  | none =>
    refine .inr (.inr ⟨fun n q hq hqk => ?_, rfl⟩)
    rw [(h.byKey _ n).2 ⟨q, hq, hqk⟩] at hk
    cases hk

theorem get?_extend : (s.extend n p).get? m = if n = m then some p else s.get? m := by
  show (s.solutions.insert n p)[m]? = _
  rw [ExtTreeMap.getElem?_insert]
  simp only [Std.compare_eq_iff_eq]
  rfl

theorem get?_push : (s.push p).get? m = if s.nextId = m then some p else s.get? m := by
  show (s.solutions.insert s.nextId p)[m]? = _
  rw [ExtTreeMap.getElem?_insert]
  simp only [Std.compare_eq_iff_eq]
  rfl

/-- A replaced expiration does not show in what is found by anything else. -/
theorem exists_get?_extend (hq : s.get? n = some q) {R : PartialSolution Part → Prop}
    (hR : R q ↔ R p) (m : SolutionId) :
    (∃ r, (s.extend n p).get? m = some r ∧ R r) ↔ ∃ r, s.get? m = some r ∧ R r := by
  rw [get?_extend]
  by_cases hm : n = m
  · subst hm
    simp [hq, hR]
  · simp [hm]

/-- What can be found after a new partial solution was stored: that one, and what could be found
before. -/
theorem exists_get?_push (h : s.Sound) (R : PartialSolution Part → Prop) (m : SolutionId) :
    (∃ r, (s.push p).get? m = some r ∧ R r) ↔
      (R p ∧ m = s.nextId) ∨ ∃ r, s.get? m = some r ∧ R r := by
  have hfresh : s.get? s.nextId = none := by
    cases hn : s.get? s.nextId with
    | none => rfl
    | some q => exact absurd (h.fresh _ q hn) (Nat.lt_irrefl _)
  rw [get?_push]
  by_cases hm : s.nextId = m
  · subst hm
    simp [hfresh]
  · simp [hm, Ne.symm hm]

theorem probes_congr (hk : q.key = p.key) : q.probes = p.probes := by
  unfold PartialSolution.probes
  rw [show q.query = p.query from congrArg Key.query hk, show q.part = p.part from
    congrArg Key.part hk, show q.binding = p.binding from congrArg Key.binding hk]

/-- Replacing the expiration changes nothing that is indexed. -/
theorem sound_extend (h : s.Sound) (hq : s.get? n = some q) (hk : q.key = p.key) :
    (s.extend n p).Sound := by
  constructor
  · exact fun k m => (h.byKey k m).trans (exists_get?_extend hq (by rw [hk]) m).symm
  · exact fun r m => (h.probes r m).trans (exists_get?_extend hq (by rw [probes_congr hk]) m).symm
  · exact h.tidyProbes
  · intro m r hr
    rw [get?_extend] at hr
    by_cases hm : n = m
    · subst hm
      exact h.fresh n q hq
    · rw [if_neg hm] at hr
      exact h.fresh m r hr

theorem sound_push (h : s.Sound) (hnew : ∀ n q, s.get? n = some q → q.key ≠ p.key) :
    (s.push p).Sound := by
  constructor
  · intro k m
    rw [exists_get?_push h]
    show (s.byKey.insert p.key s.nextId)[k]? = some m ↔ _
    rw [ExtTreeMap.getElem?_insert, ← h.byKey]
    by_cases hk : p.key = k
    · have hnone : s.byKey[k]? ≠ some m := by
        intro hm
        obtain ⟨q, hq, hqk⟩ := (h.byKey k m).1 hm
        exact hnew m q hq (hqk.trans hk.symm)
      simp [hk, hnone, eq_comm]
    · simp [hk]
  · intro r m
    rw [exists_get?_push h, ← h.probes]
    exact Buckets.mem_find_foldl_add
  · exact Buckets.tidy_foldl_add h.tidyProbes
  · intro m r hr
    rw [get?_push] at hr
    show m < s.nextId + 1
    by_cases hm : s.nextId = m
    · exact hm ▸ Nat.lt_succ_self _
    · rw [if_neg hm] at hr
      exact Nat.lt_succ_of_lt (h.fresh m r hr)

theorem sound_insert (h : s.Sound) (p : PartialSolution Part) : (s.insert p).2.Sound := by
  rcases insert_cases h p with ⟨n, q, -, -, -, he⟩ | ⟨n, q, hq, hk, -, he⟩ | ⟨hnew, he⟩
  · rw [he]
    exact h
  · rw [he]
    exact sound_extend h hq hk
  · rw [he]
    exact sound_push h hnew

/-! ### What storing does to the contents -/

/-- Storing is a change when the partial solution is new or its life gets longer, and
then it is held under the number given. -/
theorem insert_some (h : s.Sound) (hn : (s.insert p).1.id? = some n) :
    (∀ m, (s.insert p).2.get? m = if n = m then some p else s.get? m) ∧
      (∀ q, s.get? n = some q → q.key = p.key) ∧
      ∀ m q, s.get? m = some q → q.key = p.key → q.expiration < p.expiration := by
  rcases insert_cases h p with ⟨m, q, -, -, -, he⟩ | ⟨m, q, hq, hk, hlt, he⟩ | ⟨hnew, he⟩
  · rw [he] at hn
    cases hn
  · rw [he] at hn ⊢
    cases hn
    refine ⟨fun _ => get?_extend, fun r hr => ?_, fun k r hr hrk => ?_⟩
    · rw [hq] at hr
      cases hr
      exact hk
    · have hkn := h.eq_of_key hr hq (hrk.trans hk.symm)
      rw [hkn, hq] at hr
      cases hr
      exact hlt
  · rw [he] at hn ⊢
    cases hn
    exact ⟨fun _ => get?_push, fun r hr => absurd (h.fresh _ r hr) (Nat.lt_irrefl _),
      fun m r hr hrk => absurd hrk (hnew m r hr)⟩

theorem insert_none (h : s.Sound) (hn : (s.insert p).1.id? = none) :
    s.insert p = (.unchanged, s) ∧
      ∃ n q, s.get? n = some q ∧ q.key = p.key ∧ p.expiration ≤ q.expiration := by
  rcases insert_cases h p with ⟨m, q, hq, hk, hlt, he⟩ | ⟨m, q, -, -, -, he⟩ | ⟨-, he⟩
  · exact ⟨he, m, q, hq, hk, hlt⟩
  · rw [he] at hn
    cases hn
  · rw [he] at hn
    cases hn

/-- What is held after storing was stored just now or was held before. -/
theorem of_get?_insert (h : s.Sound) (hq : (s.insert p).2.get? n = some q) :
    q = p ∨ s.get? n = some q := by
  cases hm : (s.insert p).1.id? with
  | none =>
    rw [(insert_none h hm).1] at hq
    exact .inr hq
  | some m =>
    rw [(insert_some h hm).1] at hq
    split at hq
    · exact .inl (Option.some.inj hq).symm
    · exact .inr hq

/-- What can be found by its query, part or binding after storing could be found before, or it is
new. -/
theorem exists_get?_insert (h : s.Sound) {R : PartialSolution Part → Prop}
    (hR : ∀ p q, p.key = q.key → (R p ↔ R q)) (m : SolutionId) :
    (∃ r, (s.insert p).2.get? m = some r ∧ R r) ↔
      (R p ∧ (s.insert p).1 = .inserted m) ∨ ∃ r, s.get? m = some r ∧ R r := by
  rcases insert_cases h p with ⟨n, q, -, -, -, he⟩ | ⟨n, q, hq, hk, -, he⟩ | ⟨-, he⟩
  · rw [he]
    simp
  · rw [he, exists_get?_extend hq (hR q p hk)]
    simp
  · rw [he, exists_get?_push h, StoreOutcome.inserted.injEq, eq_comm (a := m)]

/-! ### Taking out -/

theorem get?_remove : (s.remove n).2.get? m = if n = m then none else s.get? m := by
  unfold remove
  cases hn : s.solutions[n]? with
  | none =>
    by_cases hm : n = m
    · rw [if_pos hm, ← hm]
      exact hn
    · rw [if_neg hm]
  | some p =>
    show (s.solutions.erase n)[m]? = _
    rw [ExtTreeMap.getElem?_erase]
    simp only [Std.compare_eq_iff_eq]
    rfl

theorem remove_eq_get? : (s.remove n).1 = s.get? n := by
  unfold remove get?
  cases s.solutions[n]? <;> rfl

theorem remove_of_none (hn : s.get? n = none) : (s.remove n).2 = s := by
  unfold remove
  rw [show s.solutions[n]? = none from hn]

theorem remove_of_some (hn : s.get? n = some p) : (s.remove n).2 =
    { s with
      solutions := s.solutions.erase n
      byKey := s.byKey.erase p.key
      probes := p.probes.foldl (fun b probe => b.discard probe n) s.probes } := by
  unfold remove
  rw [show s.solutions[n]? = some p from hn]

/-- What can be found after a removal could be found before, but for what was removed. -/
theorem exists_get?_remove (hn : s.get? n = some p) (R : PartialSolution Part → Prop)
    (m : SolutionId) : (∃ r, (s.remove n).2.get? m = some r ∧ R r) ↔
      (∃ r, s.get? m = some r ∧ R r) ∧ ¬ (R p ∧ m = n) := by
  rw [get?_remove]
  by_cases hm : n = m
  · subst hm
    simp [hn]
  · simp [hm, Ne.symm hm]

theorem sound_remove (h : s.Sound) (n : SolutionId) : (s.remove n).2.Sound := by
  cases hn : s.get? n with
  | none =>
    rw [remove_of_none hn]
    exact h
  | some p =>
    constructor
    · intro k m
      rw [exists_get?_remove hn, ← h.byKey, remove_of_some hn]
      show (s.byKey.erase p.key)[k]? = some m ↔ _
      rw [ExtTreeMap.getElem?_erase]
      by_cases hk : p.key = k
      · have hkn : s.byKey[k]? = some n := (h.byKey k n).2 ⟨p, hn, hk⟩
        simp only [hk, ReflOrd.compare_self, if_true, reduceCtorEq, true_and, hkn, Option.some.injEq,
          false_iff, not_and, Classical.not_not]
        exact fun e => e.symm
      · simp [hk]
    · intro r m
      rw [exists_get?_remove hn, ← h.probes, remove_of_some hn]
      exact Buckets.mem_find_foldl_discard
    · rw [remove_of_some hn]
      exact Buckets.tidy_foldl_discard h.tidyProbes
    · intro m r hr
      rw [remove_of_some hn]
      rw [get?_remove] at hr
      split at hr
      · cases hr
      · exact h.fresh m r hr

theorem get?_foldl_remove (ids : List SolutionId) :
    (ids.foldl (fun s n => (s.remove n).2) s).get? m = if m ∈ ids then none else s.get? m := by
  induction ids generalizing s with
  | nil => simp
  | cons n ids ih =>
    rw [List.foldl_cons, ih, get?_remove]
    by_cases hm : m ∈ ids
    · simp [hm]
    · by_cases hn : n = m
      · simp [hn]
      · simp [hm, hn, Ne.symm hn]

/-- Taking out what is listed for a query takes out what belongs to it. -/
theorem get?_foldl_remove_of_query {ids : List SolutionId}
    (hids : ∀ m, m ∈ ids ↔ ∃ p, s.get? m = some p ∧ p.query = query) :
    (ids.foldl (fun s n => (s.remove n).2) s).get? n = some p ↔
      s.get? n = some p ∧ p.query ≠ query := by
  rw [get?_foldl_remove]
  by_cases hmem : n ∈ ids
  · obtain ⟨q, hq, hquery⟩ := (hids n).1 hmem
    rw [if_pos hmem, hq]
    constructor
    · intro hnone
      cases hnone
    · intro ⟨hqp, hne⟩
      cases hqp
      exact absurd hquery hne
  · rw [if_neg hmem]
    exact ⟨fun hp => ⟨hp, fun hq => hmem ((hids n).2 ⟨p, hp, hq⟩)⟩, fun hp => hp.1⟩

/-! ### Lives -/

/-- How long the partial solution with a key lives, as far as the store knows. -/
def life (s : PartialStore Part) (k : Key Part) : Life :=
  match s.byKey[k]?.bind s.get? with
  | some p => p.expiration
  | none => ⊥

theorem life_eq_of_get? (h : s.Sound) (hp : s.get? n = some p) : s.life p.key = p.expiration := by
  unfold life
  rw [(h.byKey p.key n).2 ⟨p, hp, rfl⟩, Option.bind_some, hp]

theorem life_eq_bot (h : s.Sound) (hnone : ∀ n p, s.get? n = some p → p.key ≠ k) :
    s.life k = ⊥ := by
  unfold life
  cases hk : s.byKey[k]? with
  | none => rfl
  | some n =>
    obtain ⟨p, hp, hpk⟩ := (h.byKey k n).1 hk
    exact absurd hpk (hnone n p hp)

theorem life_eq_coe_iff (h : s.Sound) {e : Expiration} :
    s.life k = e ↔ ∃ n p, s.get? n = some p ∧ p.key = k ∧ p.expiration = e := by
  constructor
  · intro he
    unfold life at he
    cases hk : s.byKey[k]? with
    | none =>
      rw [hk] at he
      cases he
    | some n =>
      obtain ⟨p, hp, hpk⟩ := (h.byKey k n).1 hk
      rw [hk, Option.bind_some, hp] at he
      exact ⟨n, p, hp, hpk, WithBot.coe_inj.1 he⟩
  · intro ⟨n, p, hp, hpk, he⟩
    rw [← hpk, life_eq_of_get? h hp, he]

theorem life_lt_coe (h : s.Sound) {e : Expiration}
    (hlt : ∀ n p, s.get? n = some p → p.key = k → p.expiration < e) : s.life k < e := by
  induction hl : s.life k using WithBot.recBotCoe with
  | bot => exact WithBot.bot_lt_coe e
  | coe e' =>
    obtain ⟨n, p, hp, hpk, he⟩ := (life_eq_coe_iff h).1 hl
    exact WithBot.coe_lt_coe.2 (he ▸ hlt n p hp hpk)

/-- Two stores that hold the same under a key give it the same life. -/
theorem life_congr {s' : PartialStore Part} (h : s.Sound) (h' : s'.Sound)
    (hsame : ∀ n p, p.key = k → (s'.get? n = some p ↔ s.get? n = some p)) : s'.life k = s.life k := by
  induction hl : s.life k using WithBot.recBotCoe with
  | bot =>
    refine life_eq_bot h' fun n p hp hpk => ?_
    rw [hsame n p hpk] at hp
    rw [← hpk, life_eq_of_get? h hp] at hl
    cases hl
  | coe e =>
    obtain ⟨n, p, hp, hpk, he⟩ := (life_eq_coe_iff h).1 hl
    exact (life_eq_coe_iff h').2 ⟨n, p, (hsame n p hpk).2 hp, hpk, he⟩

/-- Storing takes the supremum at the key and leaves every other life as it is. -/
theorem life_insert_self (h : s.Sound) (p : PartialSolution Part) :
    (s.insert p).2.life p.key = s.life p.key ⊔ p.expiration := by
  cases hn : (s.insert p).1.id? with
  | none =>
    obtain ⟨hs, n, q, hq, hk, hle⟩ := insert_none h hn
    rw [hs, ← hk, life_eq_of_get? h hq, eq_comm, sup_eq_left]
    exact WithBot.coe_le_coe.2 hle
  | some n =>
    obtain ⟨hget, -, hlt⟩ := insert_some h hn
    rw [life_eq_of_get? (sound_insert h p) (n := n) (by rw [hget, if_pos rfl]), eq_comm, sup_eq_right]
    exact (life_lt_coe h hlt).le

theorem life_insert_of_ne (h : s.Sound) (hk : k ≠ p.key) : (s.insert p).2.life k = s.life k := by
  cases hn : (s.insert p).1.id? with
  | none => rw [(insert_none h hn).1]
  | some n =>
    obtain ⟨hget, hold, -⟩ := insert_some h hn
    refine life_congr h (sound_insert h p) fun m q hqk => ?_
    rw [hget]
    by_cases hm : n = m
    · subst hm
      rw [if_pos rfl]
      constructor
      · intro hpq
        cases hpq
        exact absurd hqk.symm hk
      · intro hq
        exact absurd (hqk.symm.trans (hold q hq)) hk
    · rw [if_neg hm]

theorem le_life_insert (h : s.Sound) (p : PartialSolution Part) (k : Key Part) :
    s.life k ≤ (s.insert p).2.life k := by
  by_cases hk : k = p.key
  · rw [hk, life_insert_self h]
    exact le_sup_left
  · rw [life_insert_of_ne h hk]

/-- Storing is a change exactly when the life gets longer. -/
theorem insert_changes_iff (h : s.Sound) (p : PartialSolution Part) :
    (s.insert p).1.id?.isSome = true ↔ s.life p.key < p.expiration := by
  cases hn : (s.insert p).1.id? with
  | none =>
    obtain ⟨-, n, q, hq, hk, hle⟩ := insert_none h hn
    rw [← hk, life_eq_of_get? h hq]
    simpa using hle
  | some n =>
    obtain ⟨-, -, hlt⟩ := insert_some h hn
    exact iff_of_true rfl (life_lt_coe h hlt)

/-! ### Probing -/

theorem mem_probe (h : s.Sound) {r : Probe Part} :
    p ∈ s.probe r ↔ (∃ n, s.get? n = some p) ∧ r ∈ p.probes := by
  unfold probe
  rw [List.mem_filterMap]
  constructor
  · intro ⟨n, hn, hp⟩
    obtain ⟨q, hq, hr⟩ := (h.probes r n).1 (ExtTreeSet.mem_toList.1 hn)
    have hp' : s.get? n = some p := hp
    rw [hq] at hp'
    cases hp'
    exact ⟨⟨n, hq⟩, hr⟩
  · intro ⟨⟨n, hp⟩, hr⟩
    exact ⟨n, ExtTreeSet.mem_toList.2 ((h.probes r n).2 ⟨p, hp, hr⟩), hp⟩

theorem nodup_probe (h : s.Sound) {r : Probe Part} : (s.probe r).Nodup := by
  unfold probe
  refine ExtTreeSet.distinct_toList.filterMap _ fun n m hne p hn q hm hpq => hne ?_
  subst hpq
  rw [h.eq_of_key hn hm rfl]
  exact ReflOrd.compare_self

theorem mem_probes {r : Probe Part} : r ∈ p.probes ↔
    p.query = r.query ∧ p.part = r.part ∧ p.binding[r.name]? = some r.term := by
  unfold PartialSolution.probes
  rw [List.mem_map]
  constructor
  · intro ⟨⟨v, t⟩, hvt, hr⟩
    subst hr
    exact ⟨rfl, rfl, ExtTreeMap.mem_toList_iff_getElem?_eq_some.1 hvt⟩
  · intro ⟨hq, hpart, hb⟩
    refine ⟨(r.name, r.term), ExtTreeMap.mem_toList_iff_getElem?_eq_some.2 hb, ?_⟩
    cases r
    simp_all

/-! ### The book of expirations -/

/-- The book has written down when each partial solution expires, if it does. -/
def TrackedBy (s : PartialStore Part) (x : Expirations) : Prop :=
  ∀ n, x.find? (.solution n) = (s.get? n).bind (·.expiration.millis?)

/-- What a book in order has written down ends at an instant there is, if it ends. -/
theorem timely_of_get? {x : Expirations} (hs : s.TrackedBy x) (hx : x.Sound)
    (hp : s.get? n = some p) : p.expiration.Timely :=
  ⟨fun t ht => hx.le_latest (.solution n) t (by rw [hs n, hp, Option.bind_some, ht])⟩

theorem trackedBy_insert {x : Expirations} (h : s.Sound) (hx : s.TrackedBy x)
    (hn : (s.insert p).1.id? = some n) :
    (s.insert p).2.TrackedBy (x.track (.solution n) p.expiration) := by
  intro m
  rw [Expirations.find?_track, (insert_some h hn).1 m]
  by_cases hm : n = m
  · rw [if_pos hm, if_pos (congrArg _ hm), Option.bind_some]
  · rw [if_neg hm, if_neg fun e => hm (Mortal.solution.inj e)]
    exact hx m

end PartialStore

end StandingQuery
