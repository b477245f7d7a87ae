import StandingQuery.Join.Symmetric
import StandingQuery.Proofs.Analysis
import StandingQuery.Proofs.Book
import StandingQuery.Proofs.Listings

/-! The rounds of the symmetric join.

A partial solution is joined with its partners: what is stored for patterns next to its
own that agrees with it and is still valid (`mem_partners`). What comes out has more
patterns (`Partner.size_lt`), so the queue of a propagation empties after at most as many
rounds as there are patterns, and what every single step keeps holds in the end
(`working_propagate`). -/
namespace StandingQuery
open Std

namespace SolutionStore
open PartialSolution PartialStore

variable {s : SolutionStore} {g : GraphPattern} {query : QueryId} {now : Nat}
variable {p q : PartialSolution PatternSet}

/-- The stored partial solutions of a query are bindings of parts of it. -/
def Fitting (s : SolutionStore) (query : QueryId) (g : GraphPattern) : Prop :=
  ∀ n p, s.get? n = some p → p.query = query → g.Fits p.part p.binding

/-- The stored partial solutions of a query bind the variables of their patterns. -/
def Covering (s : SolutionStore) (query : QueryId) (g : GraphPattern) : Prop :=
  ∀ n p, s.get? n = some p → p.query = query → g.Binds p.part p.binding

theorem Fitting.covering (h : s.Fitting query g) : s.Covering query g :=
  fun n p hn hp => (h n p hn hp).domain

/-! ### Partners -/

/-- What a partial solution is joined with. -/
structure Partner (g : GraphPattern) (now : Nat) (p q : PartialSolution PatternSet) : Prop where
  query : q.query = p.query
  disjoint : ∀ i ∈ q.part, i ∉ p.part
  linked : ∃ i ∈ p.part, ∃ j ∈ q.part, g.Linked i j
  compatible : p.binding.compatible q.binding = true
  alive : .instant now < q.expiration

/-- Whatever the analysis says, what is found is stored for the query and for the patterns asked for,
which are others and adjacent. -/
theorem of_mem_partnersOver (h : s.Sound) {a : Analysis} {part : PatternSet}
    (hq : q ∈ partnersOver s p a now part) : q.part = part ∧ (∃ n, s.get? n = some q) ∧
      q.query = p.query ∧ q.part.disjoint p.part = true ∧ a.adjacent p.part q.part = true := by
  unfold partnersOver at hq
  split at hq
  · next hadj =>
    rw [Bool.and_eq_true] at hadj
    split at hq
    · cases hq
    · split at hq
      · cases hq
      · rw [List.mem_filter, mem_probe h.toSound, mem_probes] at hq
        obtain ⟨⟨hheld, hquery, hpart, -⟩, -⟩ := hq
        exact ⟨hpart, hheld, hquery, hpart ▸ hadj⟩
  · cases hq

theorem of_mem_partners (h : s.Sound) {a : Analysis} (hq : q ∈ partners s p a now) :
    (∃ n, s.get? n = some q) ∧ q.query = p.query ∧ q.part.disjoint p.part = true ∧
      a.adjacent p.part q.part = true := by
  obtain ⟨part, -, hq⟩ := List.mem_flatMap.1 hq
  exact (of_mem_partnersOver h hq).2

theorem mem_partnersOver (h : s.Sound) (hcover : s.Covering p.query g)
    (hp : g.Binds p.part p.binding) {part : PatternSet} :
    q ∈ partnersOver s p (.ofPattern g) now part ↔
      q.part = part ∧ (∃ n, s.get? n = some q) ∧ Partner g now p q := by
  unfold partnersOver
  by_cases hadj : part.disjoint p.part && (Analysis.ofPattern g).adjacent p.part part
  · rw [if_pos hadj]
    rw [Bool.and_eq_true] at hadj
    obtain ⟨hdisjoint, hadjacent⟩ := hadj
    rw [PatternSet.disjoint_iff] at hdisjoint
    obtain ⟨i, hi, j, hj, hij⟩ := Analysis.adjacent_iff.1 hadjacent
    obtain ⟨v, hv⟩ := Analysis.sharedVariable_of_linked hi hj hij
    obtain ⟨⟨k, hk, hvk⟩, l, hl, hvl⟩ := Analysis.sharedVariable_eq_some hv
    obtain ⟨t, ht⟩ := Binding.mem_iff_lookup.1 ((hp v).2 ⟨k, hk, hvk⟩)
    simp only [hv, ht]
    rw [List.mem_filter, mem_probe h.toSound, mem_probes, Bool.and_eq_true, Bool.not_eq_true',
      Expiration.not_expiredAt_iff]
    constructor
    · intro ⟨⟨hheld, hquery, hpart, _⟩, halive, hc⟩
      refine ⟨hpart, hheld, hquery, hpart ▸ hdisjoint, ⟨i, hi, j, hpart ▸ hj, hij⟩, ?_, halive⟩
      exact Binding.compatible_symm hc
    · intro ⟨hpart, ⟨n, hn⟩, hpq⟩
      have hvq : v ∈ q.binding := (hcover n q hn hpq.query v).2 ⟨l, hpart ▸ hl, hvl⟩
      obtain ⟨t', ht'⟩ := Binding.mem_iff_lookup.1 hvq
      have htt := Binding.compatible_iff.1 hpq.compatible v t t' ht ht'
      exact ⟨⟨⟨n, hn⟩, hpq.query, hpart, by rw [ht', htt]⟩, hpq.alive,
        Binding.compatible_symm hpq.compatible⟩
  · rw [if_neg hadj]
    refine iff_of_false (by simp) fun ⟨hpart, _, hpq⟩ => hadj ?_
    rw [Bool.and_eq_true, PatternSet.disjoint_iff, Analysis.adjacent_iff, ← hpart]
    exact ⟨hpq.disjoint, hpq.linked⟩

/-- The partners of a partial solution are the stored ones that it can be joined with. -/
theorem mem_partners (h : s.Sound) (hcover : s.Covering p.query g) (hp : g.Binds p.part p.binding) :
    q ∈ partners s p (.ofPattern g) now ↔ (∃ n, s.get? n = some q) ∧ Partner g now p q := by
  unfold partners
  rw [List.mem_flatMap]
  constructor
  · intro ⟨part, _, hmem⟩
    exact ((mem_partnersOver h hcover hp).1 hmem).2
  · intro ⟨⟨n, hn⟩, hpq⟩
    exact ⟨q.part, (mem_keys_partsOf h).2 ⟨n, q, hn, hpq.query, rfl⟩,
      (mem_partnersOver h hcover hp).2 ⟨rfl, ⟨n, hn⟩, hpq⟩⟩

theorem Partner.fits_join (h : Partner g now p q) (hp : g.Fits p.part p.binding)
    (hq : g.Fits q.part q.binding) : g.Fits (p.join q).part (p.join q).binding := by
  obtain ⟨i, hi, j, hj, hij⟩ := h.linked
  exact hp.merge hq hi hj hij

/-- Joined with something for other patterns, a partial solution covers more patterns. -/
theorem members_ssubset_join (hdisjoint : q.part.disjoint p.part = true) {j : Nat}
    (hj : j ∈ q.part) : p.part.members ⊂ (p.join q).part.members := by
  have hunion : (p.join q).part.members = p.part.members ∪ q.part.members := PatternSet.members_union
  rw [hunion, Finset.ssubset_iff_of_subset Finset.subset_union_left]
  refine ⟨j, Finset.mem_union_right _ (PatternSet.mem_members.2 hj), fun hp => ?_⟩
  exact PatternSet.disjoint_iff.1 hdisjoint j hj (PatternSet.mem_members.1 hp)

theorem size_lt_join (hdisjoint : q.part.disjoint p.part = true) {j : Nat} (hj : j ∈ q.part) :
    p.part.size < (p.join q).part.size := by
  rw [← PatternSet.card_members, ← PatternSet.card_members]
  exact Finset.card_lt_card (members_ssubset_join hdisjoint hj)

theorem Partner.size_lt (h : Partner g now p q) : p.part.size < (p.join q).part.size := by
  obtain ⟨-, -, j, hj, -⟩ := h.linked
  exact size_lt_join (PatternSet.disjoint_iff.2 h.disjoint) hj

/-! ### Rounds -/

section Rounds

variable {a : Analysis} {I : Progress → List (PartialSolution PatternSet) → Prop}

/-- What one absorption preserves, a round preserves, and its joins are larger. -/
theorem round_induct {k : Nat}
    (step : ∀ s p rest, I s (p :: rest) → I (absorb a now s p).1 (rest ++ (absorb a now s p).2))
    (grows : ∀ s p rest, I s (p :: rest) → ∀ q ∈ (absorb a now s p).2, p.part.size < q.part.size)
    (work : List (PartialSolution PatternSet)) (s : Progress)
    (rest : List (PartialSolution PatternSet)) (h : I s (work ++ rest))
    (hk : ∀ p ∈ work, k ≤ p.part.size) :
    I (round a now s work).1 (rest ++ (round a now s work).2) ∧
      ∀ q ∈ (round a now s work).2, k < q.part.size := by
  induction work generalizing s rest with
  | nil =>
    refine ⟨?_, by simp [round]⟩
    rw [round, List.append_nil]
    exact h
  | cons p work ih =>
    have hstep := step s p (work ++ rest) h
    have hgrows := grows s p (work ++ rest) h
    rw [List.append_assoc] at hstep
    obtain ⟨hI, hsize⟩ := ih _ _ hstep fun q hq => hk q (List.mem_cons_of_mem _ hq)
    rw [List.append_assoc] at hI
    refine ⟨hI, fun q hq => ?_⟩
    rcases List.mem_append.1 hq with hq | hq
    · exact Nat.lt_of_le_of_lt (hk p List.mem_cons_self) (hgrows q hq)
    · exact hsize q hq

/-- What one absorption preserves holds when the rounds are over, and then no work is left:
the work of each round covers more patterns than that of the round before. -/
theorem rounds_induct (size : Nat)
    (step : ∀ s p rest, I s (p :: rest) → I (absorb a now s p).1 (rest ++ (absorb a now s p).2))
    (grows : ∀ s p rest, I s (p :: rest) → ∀ q ∈ (absorb a now s p).2, p.part.size < q.part.size)
    (bound : ∀ s work, I s work → ∀ p ∈ work, p.part.size ≤ size)
    (n k : Nat) (s : Progress) (work : List (PartialSolution PatternSet)) (h : I s work)
    (hk : ∀ p ∈ work, k ≤ p.part.size) (hn : size < k + n) : I (rounds a now n s work) [] := by
  induction n generalizing k s work with
  | zero =>
    cases work with
    | nil => exact h
    | cons p work =>
      have := bound s _ h p List.mem_cons_self
      have := hk p List.mem_cons_self
      omega
  | succ n ih =>
    cases work with
    | nil => exact h
    | cons p work =>
      have hround := round_induct step grows (p :: work) s [] (by rwa [List.append_nil]) hk
      exact ih (k + 1) _ _ hround.1 hround.2 (by omega)

end Rounds

/-! ### One absorption -/

section Absorb

variable {a : Analysis} {s : Progress} {n : SolutionId}

theorem absorb_none (h : (s.store.insert p).1.id? = none) : absorb a now s p = (s, []) := by
  unfold absorb
  simp only [h]

theorem absorb_some (h : (s.store.insert p).1.id? = some n) : absorb a now s p =
    ({ store := (s.store.insert p).2
       expirations := s.expirations.track (.solution n) p.expiration
       changed := true
       complete := if p.part = a.full then s.complete ++ [p] else s.complete },
      if p.part = a.full then [] else (partners (s.store.insert p).2 p a now).map p.join) := by
  unfold absorb
  simp only [h]
  split <;> rfl

/-- What has changed stays changed. -/
theorem changed_absorb (h : s.changed = true) : (absorb a now s p).1.changed = true := by
  cases hn : (s.store.insert p).1.id? with
  | none =>
    rw [absorb_none hn]
    exact h
  | some n => rw [absorb_some hn]

theorem changed_round (work : List (PartialSolution PatternSet)) (h : s.changed = true) :
    (round a now s work).1.changed = true := by
  induction work generalizing s with
  | nil => exact h
  | cons p work ih => exact ih (changed_absorb h)

theorem changed_rounds (n : Nat) (work : List (PartialSolution PatternSet)) (h : s.changed = true) :
    (rounds a now n s work).changed = true := by
  induction n generalizing s work with
  | zero => exact h
  | succ n ih =>
    cases work with
    | nil => exact h
    | cons p work => exact ih _ (changed_round (p :: work) h)

/-- A propagation changes something exactly if it stores its seed or makes it live longer. -/
theorem changed_propagate (s : SolutionStore) (x : Expirations) (p : PartialSolution PatternSet)
    (a : Analysis) (now : Nat) : (propagate s x p a now).changed = (s.insert p).1.id?.isSome := by
  show (rounds a now a.size (absorb a now { store := s, expirations := x } p).1
    ((absorb a now { store := s, expirations := x } p).2 ++ [])).changed = _
  cases hn : (s.insert p).1.id? with
  | none =>
    rw [absorb_none (s := { store := s, expirations := x }) hn]
    cases a.size <;> rfl
  | some n =>
    rw [absorb_some (s := { store := s, expirations := x }) hn]
    exact changed_rounds _ _ rfl

/-- Absorbing is storing. -/
theorem absorb_store (h : s.store.Sound) : (absorb a now s p).1.store = (s.store.insert p).2 := by
  cases hn : (s.store.insert p).1.id? with
  | none => rw [absorb_none hn, insert_none h hn]
  | some n => rw [absorb_some hn]

/-- What is joined is made of a partial solution and one of its partners. -/
theorem mem_absorb (h : q ∈ (absorb a now s p).2) :
    ∃ r ∈ partners (s.store.insert p).2 p a now, p.join r = q := by
  cases hn : (s.store.insert p).1.id? with
  | none =>
    rw [absorb_none hn] at h
    cases h
  | some n =>
    rw [absorb_some hn] at h
    dsimp only at h
    split at h
    · cases h
    · exact List.mem_map.1 h

end Absorb

/-! ### Work in order -/

/-- The store and the book of expirations are in order, and all that was done since
`start` and all work is for one query. -/
structure Working (g : GraphPattern) (query : QueryId) (start s : Progress)
    (work : List (PartialSolution PatternSet)) : Prop where
  sound : s.store.Sound
  fitting : s.store.Fitting query g
  tracked : s.store.TrackedBy s.expirations
  expirations : s.expirations.Sound
  queries : ∀ id, s.expirations.find? (.query id) = start.expirations.find? (.query id)
  others : ∀ k, k.query ≠ query → s.store.life k = start.store.life k
  ours : ∀ p ∈ work, p.query = query ∧ g.Fits p.part p.binding
  timely : ∀ p ∈ work, p.expiration.Timely

section Working

variable {start s : Progress} {rest : List (PartialSolution PatternSet)}

theorem fitting_insert {s : SolutionStore} (h : s.Sound) (hfit : s.Fitting query g)
    (hp : g.Fits p.part p.binding) : Fitting (s.insert p).2 query g := by
  intro n q hq hquery
  rcases of_get?_insert h.toSound hq with rfl | hq
  · exact hp
  · exact hfit n q hq hquery

/-- Everything that is joined is joined from partners. -/
theorem Working.partner (h : Working g query start s (p :: rest)) :
    ∀ q ∈ (absorb (.ofPattern g) now s p).2, ∃ r, Partner g now p r ∧
      (∃ n, (s.store.insert p).2.get? n = some r) ∧ g.Fits r.part r.binding ∧ p.join r = q := by
  obtain ⟨hq, hp⟩ := h.ours p List.mem_cons_self
  have hfit := fitting_insert h.sound h.fitting hp
  intro q hmem
  obtain ⟨r, hr, hjoin⟩ := mem_absorb hmem
  obtain ⟨⟨n, hn⟩, hpr⟩ :=
    (mem_partners (sound_insert h.sound p) (hq ▸ hfit.covering) hp.domain).1 hr
  exact ⟨r, hpr, ⟨n, hn⟩, hfit n r hn (hpr.query.trans hq), hjoin⟩

theorem Working.grows (h : Working g query start s (p :: rest)) :
    ∀ q ∈ (absorb (.ofPattern g) now s p).2, p.part.size < q.part.size := by
  intro q hq
  obtain ⟨r, hpr, -, -, rfl⟩ := h.partner q hq
  exact hpr.size_lt

theorem Working.bound {work : List (PartialSolution PatternSet)} (h : Working g query start s work) :
    ∀ p ∈ work, p.part.size ≤ g.length :=
  fun p hp => PatternSet.size_le (h.ours p hp).2.connected.inRange

theorem Working.absorb (h : Working g query start s (p :: rest)) :
    Working g query start (absorb (.ofPattern g) now s p).1
      (rest ++ (SolutionStore.absorb (.ofPattern g) now s p).2) := by
  obtain ⟨hq, hp⟩ := h.ours p List.mem_cons_self
  have hwork : ∀ q ∈ rest ++ (SolutionStore.absorb (.ofPattern g) now s p).2,
      q.query = query ∧ g.Fits q.part q.binding := by
    intro q hmem
    rcases List.mem_append.1 hmem with hmem | hmem
    · exact h.ours q (List.mem_cons_of_mem _ hmem)
    · obtain ⟨r, hpr, -, hr, rfl⟩ := h.partner q hmem
      exact ⟨hq, hpr.fits_join hp hr⟩
  have hseed := h.timely p List.mem_cons_self
  have htimely : ∀ q ∈ rest ++ (SolutionStore.absorb (.ofPattern g) now s p).2,
      q.expiration.Timely := by
    intro q hmem
    rcases List.mem_append.1 hmem with hmem | hmem
    · exact h.timely q (List.mem_cons_of_mem _ hmem)
    · obtain ⟨r, -, ⟨n, hn⟩, -, rfl⟩ := h.partner q hmem
      have hr : r.expiration.Timely := by
        rcases of_get?_insert h.sound.toSound hn with rfl | hold
        · exact hseed
        · exact timely_of_get? h.tracked h.expirations hold
      exact inferInstanceAs (Expiration.Timely (min p.expiration r.expiration))
  cases hn : (s.store.insert p).1.id? with
  | none =>
    rw [absorb_none hn] at hwork htimely ⊢
    exact { h with ours := hwork, timely := htimely }
  | some n =>
    rw [absorb_some hn] at hwork htimely ⊢
    exact {
      sound := sound_insert h.sound p
      fitting := fitting_insert h.sound h.fitting hp
      tracked := trackedBy_insert h.sound.toSound h.tracked hn
      expirations := Expirations.sound_track h.expirations _ _
      queries := fun id => by
        rw [Expirations.find?_track, if_neg (by simp)]
        exact h.queries id
      others := fun k hk =>
        (life_insert_of_ne h.sound.toSound fun e => hk ((congrArg Key.query e).trans hq)).trans
          (h.others k hk)
      ours := hwork
      timely := htimely }

/-- When joining is over, everything is in order. -/
theorem working_propagate (now : Nat) {x : Expirations} {s : SolutionStore}
    {seed : PartialSolution PatternSet} (h : Working g query ⟨s, x, false, []⟩ ⟨s, x, false, []⟩ [seed]) :
    Working g query ⟨s, x, false, []⟩ (propagate s x seed (.ofPattern g) now) [] := by
  refine rounds_induct g.length (fun s p rest h => h.absorb) (fun s p rest h => h.grows)
    (fun s work h => h.bound) _ 0 _ _ h (fun p _ => Nat.zero_le _) ?_
  rw [Analysis.size_ofPattern]
  omega

end Working

end SolutionStore

end StandingQuery
