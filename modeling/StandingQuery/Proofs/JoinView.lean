import StandingQuery.Proofs.JoinState
import StandingQuery.Proofs.StoreView

/-! Joining looks at one query only.

Two stores with the same contents for a query take in a match of it alike: the same
partial solutions are joined in the same order, the same solutions are complete, and the
contents for the query are the same again (`advance_congr`). For any other query the contents
stay as they are (`contentsOf_advance`). Both hold for either join, so what a query is sent
depends on nothing that is stored for others. -/
namespace StandingQuery
open Std

namespace SolutionStore
open PartialSolution PartialStore

variable {s s' : Progress} {a : Analysis} {now : Nat} {query id : QueryId}
variable {p q : PartialSolution PatternSet}

/-- Two propagations for a query that have come to the same. -/
structure Abreast (query : QueryId) (s s' : Progress) : Prop where
  left : s.store.Sound
  right : s'.store.Sound
  contents : s'.store.contentsOf query = s.store.contentsOf query
  changed : s'.changed = s.changed
  complete : s'.complete = s.complete

theorem partners_congr {s s' : SolutionStore} (h : s.Sound) (h' : s'.Sound)
    (hsame : s'.contentsOf p.query = s.contentsOf p.query) :
    partners s' p a now = partners s p a now := by
  have hover : ∀ part, partnersOver s' p a now part = partnersOver s p a now part := by
    intro part
    unfold partnersOver
    simp only [probe_eq h.toSound, probe_eq h'.toSound, hsame]
  unfold partners
  rw [keys_partsOf_congr h h' hsame]
  exact List.flatMap_congr fun part _ => hover part

/-- What is joined is for the same query. -/
theorem query_absorb (hq : q ∈ (absorb a now s p).2) : q.query = p.query := by
  obtain ⟨r, -, rfl⟩ := mem_absorb hq
  rfl

theorem absorb_congr (h : Abreast p.query s s') :
    Abreast p.query (absorb a now s p).1 (absorb a now s' p).1 ∧
      (absorb a now s' p).2 = (absorb a now s p).2 := by
  have hsound := sound_insert h.left p
  have hsound' := sound_insert h.right p
  obtain ⟨hnews, hput⟩ := contentsOf_insert h.left (p := p) rfl
  obtain ⟨hnews', hput'⟩ := contentsOf_insert h.right (p := p) rfl
  rw [h.contents, ← hnews] at hnews'
  rw [h.contents, ← hput] at hput'
  cases hn : (s.store.insert p).1.id? with
  | none =>
    rw [hn, Option.isSome_none, Option.isSome_eq_false_iff, Option.isNone_iff_eq_none] at hnews'
    rw [absorb_none hn, absorb_none hnews']
    exact ⟨h, rfl⟩
  | some n =>
    rw [hn, Option.isSome_some] at hnews'
    obtain ⟨n', hn'⟩ := Option.isSome_iff_exists.1 hnews'
    rw [absorb_some hn, absorb_some hn', partners_congr hsound hsound' hput', h.complete]
    exact ⟨⟨hsound, hsound', hput', rfl, rfl⟩, rfl⟩

section Lockstep

variable {R : Progress → Progress → Prop}

/-- If two propagations join the same with every step, they stay related through a round. -/
theorem round_lockstep (step : ∀ s s' p, p.query = query → R s s' →
      R (absorb a now s p).1 (absorb a now s' p).1 ∧ (absorb a now s' p).2 = (absorb a now s p).2)
    (work : List (PartialSolution PatternSet)) (hwork : ∀ p ∈ work, p.query = query) (h : R s s') :
    R (round a now s work).1 (round a now s' work).1 ∧
      (round a now s' work).2 = (round a now s work).2 ∧
      ∀ q ∈ (round a now s work).2, q.query = query := by
  induction work generalizing s s' with
  | nil => exact ⟨h, rfl, fun q hq => absurd hq List.not_mem_nil⟩
  | cons p work ih =>
    have hp := hwork p List.mem_cons_self
    obtain ⟨hstep, hjoined⟩ := step s s' p hp h
    obtain ⟨hround, hmore, hqueries⟩ := ih (fun q hq => hwork q (List.mem_cons_of_mem _ hq)) hstep
    refine ⟨hround, congrArg₂ (· ++ ·) hjoined hmore, fun q hq => ?_⟩
    rcases List.mem_append.1 hq with hq | hq
    · exact (query_absorb hq).trans hp
    · exact hqueries q hq

theorem rounds_lockstep (step : ∀ s s' p, p.query = query → R s s' →
      R (absorb a now s p).1 (absorb a now s' p).1 ∧ (absorb a now s' p).2 = (absorb a now s p).2)
    (n : Nat) (work : List (PartialSolution PatternSet)) (hwork : ∀ p ∈ work, p.query = query)
    (h : R s s') : R (rounds a now n s work) (rounds a now n s' work) := by
  induction n generalizing s s' work with
  | zero => exact h
  | succ n ih =>
    cases work with
    | nil => exact h
    | cons p work =>
      obtain ⟨hround, hnext, hqueries⟩ := round_lockstep step (p :: work) hwork h
      unfold rounds
      dsimp only
      rw [hnext]
      exact ih _ hqueries hround

end Lockstep

theorem propagate_congr {s s' : SolutionStore} (h : s.Sound) (h' : s'.Sound)
    (hsame : s'.contentsOf p.query = s.contentsOf p.query) (x x' : Expirations) (a : Analysis)
    (now : Nat) : Abreast p.query (propagate s x p a now) (propagate s' x' p a now) := by
  have hstep : ∀ t t' q, q.query = p.query → Abreast p.query t t' →
      Abreast p.query (absorb a now t q).1 (absorb a now t' q).1 ∧
        (absorb a now t' q).2 = (absorb a now t q).2 := by
    intro t t' q hq hR
    rw [← hq] at hR ⊢
    exact absorb_congr hR
  exact rounds_lockstep hstep _ [p] (fun q hq => congrArg _ (List.mem_singleton.1 hq))
    ⟨h, h', hsame, rfl, rfl⟩

theorem contentsOf_propagate {s : SolutionStore} (h : s.Sound) (hne : p.query ≠ id)
    (x : Expirations) (a : Analysis) (now : Nat) :
    (propagate s x p a now).store.contentsOf id = s.contentsOf id := by
  let R : Progress → Progress → Prop := fun t t' =>
    t' = t ∧ t.store.Sound ∧ t.store.contentsOf id = s.contentsOf id
  have hstep : ∀ t t' q, q.query = p.query → R t t' →
      R (absorb a now t q).1 (absorb a now t' q).1 ∧
        (absorb a now t' q).2 = (absorb a now t q).2 := by
    intro t t' q hq hR
    obtain ⟨rfl, hsound, hcontents⟩ := hR
    refine ⟨⟨rfl, ?_, ?_⟩, rfl⟩
    · rw [absorb_store hsound]
      exact sound_insert hsound q
    · rw [absorb_store hsound, toPartialStore_insert,
        contentsOf_insert_of_ne hsound.toSound fun hid => hne (hq.symm.trans hid), hcontents]
  have hdone : R (propagate s x p a now) (propagate s x p a now) :=
    rounds_lockstep hstep _ [p] (fun q hq => congrArg _ (List.mem_singleton.1 hq)) ⟨rfl, h, rfl⟩
  exact hdone.2.2

end SolutionStore

namespace MatchCache
open PartialSolution PartialStore

variable {c c' : MatchCache} {a : Analysis} {now : Nat} {m : PartialSolution Nat} {query : QueryId}

theorem extend_congr (h : c.Sound) (h' : c'.Sound) (hsame : c'.contentsOf query = c.contentsOf query)
    (order : List Nat) (b : Binding) (e : Expiration) :
    extend c' a query now order b e = extend c a query now order b e := by
  have hcandidates : ∀ i b, candidates c' a query now i b = candidates c a query now i b := by
    intro i b
    unfold candidates
    simp only [probe_eq h.toSound, probe_eq h'.toSound, hsame]
  induction order generalizing b e with
  | nil => rfl
  | cons i order ih =>
    unfold extend
    rw [hcandidates]
    exact List.flatMap_congr fun n _ => ih _ _

theorem addMatch_congr (h : c.Sound) (h' : c'.Sound)
    (hsame : c'.contentsOf m.query = c.contentsOf m.query) (x x' : Expirations) (a : Analysis)
    (now : Nat) : (addMatch c' x' m a now).1 = (addMatch c x m a now).1 ∧
      (addMatch c' x' m a now).2.1.contentsOf m.query =
        (addMatch c x m a now).2.1.contentsOf m.query := by
  obtain ⟨hnews, hput⟩ := contentsOf_insert h (x := m) rfl
  obtain ⟨hnews', hput'⟩ := contentsOf_insert h' (x := m) rfl
  rw [hsame, ← hnews] at hnews'
  rw [hsame, ← hput] at hput'
  rw [addMatch_cache h, addMatch_cache h']
  refine ⟨?_, hput'⟩
  cases hn : (c.insert m).1.id? with
  | none =>
    rw [hn, Option.isSome_none, Option.isSome_eq_false_iff, Option.isNone_iff_eq_none] at hnews'
    rw [addMatch_none hn, addMatch_none hnews']
  | some n =>
    rw [hn, Option.isSome_some] at hnews'
    obtain ⟨n', hn'⟩ := Option.isSome_iff_exists.1 hnews'
    rw [addMatch_some hn, addMatch_some hn']
    exact congrArg some (extend_congr (sound_insert h m) (sound_insert h' m) hput' _ _ _)

end MatchCache

namespace JoinState
open PartialSolution PartialStore

variable {j j' : JoinState} {x x' : Expirations} {q : Registered} {i now : Nat} {m : Candidate}
variable {id : QueryId} {n : SolutionId} {p : PartialSolution PatternSet}

/-- What is stored for a query, with its numbers. -/
def entriesOf : JoinState → QueryId → List (SolutionId × PartialSolution PatternSet)
  | symmetric s, id => s.entriesOf id
  | caching c, id => (c.entriesOf id).map fun e => (e.1, ofMatch e.2)

/-- What is stored for a query, in the order of its numbers. -/
def contentsOf (j : JoinState) (id : QueryId) : List (PartialSolution PatternSet) :=
  (j.entriesOf id).map Prod.snd

theorem contentsOf_caching (c : MatchCache) (id : QueryId) :
    (caching c).contentsOf id = (c.contentsOf id).map ofMatch := by
  unfold contentsOf entriesOf PartialStore.contentsOf
  rw [List.map_map, List.map_map]
  rfl

theorem ofMatch_injective : Function.Injective ofMatch := by
  intro m n h
  obtain ⟨query, part, binding, expiration⟩ := m
  obtain ⟨query', part', binding', expiration'⟩ := n
  simp only [ofMatch, PartialSolution.ofPattern, PartialSolution.mk.injEq] at h ⊢
  exact ⟨h.1, PatternSet.single_injective h.2.1, h.2.2⟩

theorem mem_entriesOf : (n, p) ∈ j.entriesOf id ↔ j.held n = some p ∧ p.query = id := by
  cases j with
  | symmetric s => exact PartialStore.mem_entriesOf
  | caching c =>
    show (n, p) ∈ (c.entriesOf id).map _ ↔ (c.get? n).map ofMatch = some p ∧ _
    rw [List.mem_map, Option.map_eq_some_iff]
    constructor
    · intro ⟨e, he, heq⟩
      obtain ⟨hget, hquery⟩ := PartialStore.mem_entriesOf.1 he
      cases heq
      exact ⟨⟨e.2, hget, rfl⟩, hquery⟩
    · intro ⟨⟨r, hget, hr⟩, hquery⟩
      subst hr
      exact ⟨(n, r), PartialStore.mem_entriesOf.2 ⟨hget, hquery⟩, rfl⟩

theorem ordered_entriesOf (j : JoinState) (id : QueryId) :
    (j.entriesOf id).Pairwise fun a b => a.1 < b.1 := by
  cases j with
  | symmetric s => exact PartialStore.ordered_entriesOf _ id
  | caching c => exact List.pairwise_map.2 (PartialStore.ordered_entriesOf _ id)

/-- If some of what is held for a query stays, under the numbers that it had, that is what its
contents are afterwards. -/
theorem contentsOf_filter {keep : PartialSolution PatternSet → Bool}
    (h : ∀ n p, p.query = id → (j'.held n = some p ↔ j.held n = some p ∧ keep p = true)) :
    j'.contentsOf id = (j.contentsOf id).filter keep := by
  have hentries : j'.entriesOf id = (j.entriesOf id).filter fun e => keep e.2 := by
    refine eq_of_ordered (ordered_entriesOf j' id) ((ordered_entriesOf j id).filter _) fun n p => ?_
    rw [mem_entriesOf, List.mem_filter, mem_entriesOf]
    constructor
    · intro ⟨hp, hquery⟩
      obtain ⟨hp, hkeep⟩ := (h n p hquery).1 hp
      exact ⟨⟨hp, hquery⟩, hkeep⟩
    · intro ⟨⟨hp, hquery⟩, hkeep⟩
      exact ⟨(h n p hquery).2 ⟨hp, hkeep⟩, hquery⟩
  unfold contentsOf
  rw [hentries, List.filter_map]
  rfl

theorem sizeOf_eq (h : j.Sound) (id : QueryId) : j.sizeOf id = (j.contentsOf id).length := by
  cases j with
  | symmetric s => exact SolutionStore.sizeOf_eq h id
  | caching c =>
    rw [contentsOf_caching, List.length_map]
    exact MatchCache.sizeOf_eq h id

/-! ### Taking in a match -/

/-- Taking in a match of a query depends on what is stored for it. -/
theorem advance_congr (h : j.Sound) (h' : j'.Sound) (hstrategy : j'.strategy = j.strategy)
    (hsame : j'.contentsOf q.id = j.contentsOf q.id) (x x' : Expirations) (i : Nat) (m : Candidate)
    (now : Nat) :
    (j'.advance x' q i m now).changed = (j.advance x q i m now).changed ∧
      (j'.advance x' q i m now).candidates = (j.advance x q i m now).candidates ∧
      (j'.advance x' q i m now).joins.contentsOf q.id =
        (j.advance x q i m now).joins.contentsOf q.id := by
  cases j with
  | symmetric s =>
    obtain ⟨s', rfl⟩ := exists_store hstrategy
    have hdone := SolutionStore.propagate_congr (p := .ofPattern q.id i m.binding m.expiration) h h'
      hsame x x' q.analysis now
    refine ⟨hdone.changed, ?_, hdone.contents⟩
    unfold advance
    dsimp only
    rw [hdone.complete]
  | caching c =>
    obtain ⟨c', rfl⟩ := exists_cache hstrategy
    rw [contentsOf_caching, contentsOf_caching, ofMatch_injective.list_map.eq_iff] at hsame
    obtain ⟨hfound, hcontents⟩ := MatchCache.addMatch_congr
      (m := ⟨q.id, i, m.binding, m.expiration⟩) h h' hsame x x' q.analysis now
    refine ⟨congrArg Option.isSome hfound, congrArg (·.getD []) hfound, ?_⟩
    exact (contentsOf_caching _ _).trans ((congrArg _ hcontents).trans (contentsOf_caching _ _).symm)

/-- Taking in a match of one query is nothing to the others. -/
theorem contentsOf_advance (h : j.Sound) (hne : id ≠ q.id) :
    (j.advance x q i m now).joins.contentsOf id = j.contentsOf id := by
  cases j with
  | symmetric s => exact SolutionStore.contentsOf_propagate h (fun hid => hne hid.symm) x q.analysis now
  | caching c =>
    have hcache := MatchCache.addMatch_cache h x ⟨q.id, i, m.binding, m.expiration⟩ q.analysis now
    have hcontents := contentsOf_insert_of_ne (p := ⟨q.id, i, m.binding, m.expiration⟩) h.toSound
      fun hid => hne hid.symm
    rw [← MatchCache.toPartialStore_insert, ← hcache] at hcontents
    exact (contentsOf_caching _ _).trans ((congrArg _ hcontents).trans (contentsOf_caching _ _).symm)

end JoinState

end StandingQuery
