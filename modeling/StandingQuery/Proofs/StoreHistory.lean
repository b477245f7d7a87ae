import StandingQuery.Proofs.Caching
import StandingQuery.Proofs.Symmetric

/-! Stores over time.

The store of either join is filled, emptied piece by piece or all at once, and joined into.
Whatever a join does, what becomes of the store is that partial solutions are stored in it, one
after another (`SolutionStore.Filled`, `MatchCache.addMatch_cache`). After any of these the indexes
list what is held and nothing else (`SolutionStore.Exact`, `MatchCache.Exact`), and what is held under a
number that had been given out before was held under it before (`Precedes`): a number belongs to
one partial solution for good, and when that is taken out nobody gets it (`exact_throughout`). -/
set_option linter.unusedSectionVars false

namespace StandingQuery
open Std

namespace PartialStore
open PartialSolution

section Numbers

variable {Part : Type} [Ord Part] [TransOrd Part] [LawfulEqOrd Part]
variable {s t u : PartialStore Part} {p : PartialSolution Part} {n : SolutionId}

/-- What can be done to a store. -/
inductive Operation (Part : Type) where
  | insert (p : PartialSolution Part)
  | remove (n : SolutionId)
  | removeQuery (query : QueryId)
  | clear
  | join (expirations : Expirations) (p : PartialSolution Part) (a : Analysis) (now : Nat)

/-- A store holds a key once, and a probe finds those that bind its variable to its term. -/
structure Exact (s : PartialStore Part) : Prop where
  distinct : ∀ (n m : SolutionId) (p q : PartialSolution Part),
    s.get? n = some p → s.get? m = some q → p.key = q.key → n = m
  probed : ∀ (query : QueryId) (part : Part) (v : Variable) (t : Term) (n : SolutionId),
    n ∈ s.probes.find ⟨query, part, v, t⟩ ↔
      ∃ p, s.get? n = some p ∧ p.query = query ∧ p.part = part ∧ p.binding[v]? = some t

theorem Sound.exact (h : s.Sound) : s.Exact where
  distinct _ _ _ _ := h.eq_of_key
  probed query part v t n := by
    rw [h.probes]
    exact exists_congr fun p => and_congr_right fun _ => mem_probes

/-- What is new gets the next number. -/
theorem eq_nextId_of_inserted (h : s.Sound) (hn : (s.insert p).1 = .inserted n) : n = s.nextId := by
  rcases insert_cases h p with ⟨m, q, -, -, -, he⟩ | ⟨m, q, -, -, -, he⟩ | ⟨-, he⟩
  · rw [he] at hn
    cases hn
  · rw [he] at hn
    cases hn
  · rw [he] at hn
    cases hn
    rfl

/-- `t` comes after `s`: numbers that have been given out are held, if they are, by what they were
given to, which lives no shorter. -/
structure Precedes (s t : PartialStore Part) : Prop where
  nextId_le : s.nextId ≤ t.nextId
  kept : ∀ (n : SolutionId) (q : PartialSolution Part), n < s.nextId → t.get? n = some q →
    ∃ p, s.get? n = some p ∧ p.key = q.key ∧ p.expiration ≤ q.expiration

theorem Precedes.refl (s : PartialStore Part) : s.Precedes s :=
  ⟨Nat.le_refl _, fun _ q _ hq => ⟨q, hq, rfl, le_rfl⟩⟩

theorem Precedes.trans (h : s.Precedes t) (h' : t.Precedes u) : s.Precedes u where
  nextId_le := Nat.le_trans h.nextId_le h'.nextId_le
  kept n r hn hr := by
    obtain ⟨q, hq, hqr, hle⟩ := h'.kept n r (Nat.lt_of_lt_of_le hn h.nextId_le) hr
    obtain ⟨p, hp, hpq, hle'⟩ := h.kept n q hn hq
    exact ⟨p, hp, hpq.trans hqr, hle'.trans hle⟩

theorem precedes_insert (h : s.Sound) (p : PartialSolution Part) : s.Precedes (s.insert p).2 := by
  rcases insert_cases h p with ⟨n, q, -, -, -, he⟩ | ⟨n, q, hq, hk, hlt, he⟩ | ⟨-, he⟩
  · rw [he]
    exact .refl s
  · rw [he]
    refine ⟨Nat.le_refl _, fun m r _ hr => ?_⟩
    rw [get?_extend] at hr
    split at hr
    · next hm =>
      cases hr
      exact ⟨q, hm ▸ hq, hk, hlt.le⟩
    · exact ⟨r, hr, rfl, le_rfl⟩
  · rw [he]
    refine ⟨Nat.le_succ _, fun m r hm hr => ?_⟩
    rw [get?_push, if_neg (Nat.ne_of_gt hm)] at hr
    exact ⟨r, hr, rfl, le_rfl⟩

theorem nextId_remove (s : PartialStore Part) (n : SolutionId) :
    (s.remove n).2.nextId = s.nextId := by
  cases hn : s.get? n with
  | none => rw [remove_of_none hn]
  | some p => rw [remove_of_some hn]

theorem precedes_remove (s : PartialStore Part) (n : SolutionId) : s.Precedes (s.remove n).2 := by
  refine ⟨(nextId_remove s n).ge, fun m q _ hq => ?_⟩
  rw [get?_remove] at hq
  split at hq
  · cases hq
  · exact ⟨q, hq, rfl, le_rfl⟩

theorem precedes_foldl_remove (s : PartialStore Part) (ids : List SolutionId) :
    s.Precedes (ids.foldl (fun s n => (s.remove n).2) s) := by
  induction ids generalizing s with
  | nil => exact .refl s
  | cons n ids ih => exact (precedes_remove s n).trans (ih _)

theorem precedes_clear (s : PartialStore Part) : s.Precedes s.clear :=
  ⟨Nat.le_refl _, fun n q _ hq => by simp [clear, get?] at hq⟩

/-- If every step keeps the stores in order, and numbers with what they were given to, then so does
every history. -/
theorem precedes_foldl {S Op : Type} {view : S → PartialStore Part} {Inv : S → Prop}
    {step : S → Op → S}
    (hstep : ∀ s op, Inv s → Inv (step s op) ∧ (view s).Precedes (view (step s op))) (ops : List Op)
    {s : S} (h : Inv s) :
    Inv (ops.foldl step s) ∧ (view s).Precedes (view (ops.foldl step s)) := by
  induction ops generalizing s with
  | nil => exact ⟨h, .refl _⟩
  | cons op ops ih =>
    obtain ⟨hnext, hfirst⟩ := hstep s op h
    obtain ⟨hlast, hrest⟩ := ih hnext
    exact ⟨hlast, hfirst.trans hrest⟩

end Numbers

end PartialStore

/-! ### The symmetric join -/

namespace SolutionStore
open PartialSolution PartialStore

variable {s t u : SolutionStore} {a : Analysis} {now : Nat}

/-- `t` is what becomes of `s` when partial solutions are stored in it, one after another. -/
inductive Filled (s : SolutionStore) : SolutionStore → Prop where
  | refl : Filled s s
  | insert {t : SolutionStore} : Filled s t → (p : PartialSolution PatternSet) →
      Filled s (t.insert p).2

theorem Filled.trans (h : Filled s t) (h' : Filled t u) : Filled s u := by
  induction h' with
  | refl => exact h
  | insert _ p ih => exact ih.insert p

theorem Filled.sound_precedes (h : Filled s t) (hs : s.Sound) :
    t.Sound ∧ s.Precedes t.toPartialStore := by
  induction h with
  | refl => exact ⟨hs, .refl _⟩
  | insert _ p ih => exact ⟨sound_insert ih.1 p, ih.2.trans (precedes_insert ih.1.toSound p)⟩

theorem filled_absorb (s : Progress) (p : PartialSolution PatternSet) :
    Filled s.store (absorb a now s p).1.store := by
  cases hn : (s.store.insert p).1.id? with
  | none =>
    rw [absorb_none hn]
    exact .refl
  | some n =>
    rw [absorb_some hn]
    exact .insert .refl p

theorem filled_round (s : Progress) (work : List (PartialSolution PatternSet)) :
    Filled s.store (round a now s work).1.store := by
  induction work generalizing s with
  | nil => exact .refl
  | cons p work ih => exact (filled_absorb s p).trans (ih _)

theorem filled_rounds (n : Nat) (s : Progress) (work : List (PartialSolution PatternSet)) :
    Filled s.store (rounds a now n s work).store := by
  induction n generalizing s work with
  | zero => exact .refl
  | succ n ih =>
    cases work with
    | nil => exact .refl
    | cons p work => exact (filled_round s (p :: work)).trans (ih _ _)

/-- Everything that follows from a new partial solution is stored. -/
theorem filled_propagate (s : SolutionStore) (x : Expirations) (seed : PartialSolution PatternSet)
    (a : Analysis) (now : Nat) : Filled s (propagate s x seed a now).store :=
  filled_rounds (a.size + 1) { store := s, expirations := x } [seed]

/-- What becomes of a store by an operation. -/
def perform (s : SolutionStore) : Operation PatternSet → SolutionStore
  | .insert p => (s.insert p).2
  | .remove n => (s.remove n).2
  | .removeQuery query => (s.removeQuery query).2
  | .clear => s.clear
  | .join expirations p a now => (propagate s expirations p a now).store

/-- The store after operations on an empty one. -/
def run (ops : List (Operation PatternSet)) : SolutionStore := ops.foldl perform .empty

theorem perform_step (s : SolutionStore) (op : Operation PatternSet) (h : s.Sound) :
    (s.perform op).Sound ∧ s.Precedes (s.perform op).toPartialStore := by
  cases op with
  | insert p => exact ⟨sound_insert h p, precedes_insert h.toSound p⟩
  | remove n => exact ⟨sound_remove h n, precedes_remove s.toPartialStore n⟩
  | removeQuery query =>
    refine ⟨sound_removeQuery h query, ?_⟩
    show s.Precedes (List.foldl _ s (s.idsOf query)).toPartialStore
    rw [toPartialStore_foldl_remove]
    exact precedes_foldl_remove s.toPartialStore _
  | clear => exact ⟨sound_empty _, precedes_clear s.toPartialStore⟩
  | join expirations p a now => exact (filled_propagate s expirations p a now).sound_precedes h

theorem sound_run (ops : List (Operation PatternSet)) : (run ops).Sound :=
  (precedes_foldl perform_step ops (sound_empty 0)).1

theorem precedes_run (ops more : List (Operation PatternSet)) :
    (run ops).Precedes (run (ops ++ more)).toPartialStore := by
  rw [run, run, List.foldl_append]
  exact (precedes_foldl perform_step more (sound_run ops)).2

/-- Besides finding what it holds in every way, a store lists and counts the partial solutions of a
query, each once. What is new gets the next number. -/
structure Exact (s : SolutionStore) : Prop extends sound : s.Sound, s.toPartialStore.Exact where
  listed : ∀ query, (s.idsOf query).Nodup ∧
    ∀ n, n ∈ s.idsOf query ↔ ∃ p, s.get? n = some p ∧ p.query = query
  counted : ∀ query, s.sizeOf query = (s.contentsOf query).length
  numbered : ∀ (p : PartialSolution PatternSet) (n : SolutionId),
    (s.insert p).1 = .inserted n → n = s.nextId

theorem Sound.exact (h : s.Sound) : s.Exact where
  sound := h
  toExact := h.toSound.exact
  listed query := ⟨nodup_idsOf h query, fun _ => mem_idsOf h⟩
  counted := sizeOf_eq h
  numbered _ _ := eq_nextId_of_inserted h.toSound

end SolutionStore

/-! ### The caching join -/

namespace MatchCache
open PartialSolution PartialStore

variable {c : MatchCache}

/-- What becomes of a cache by an operation. -/
def perform (c : MatchCache) : Operation Nat → MatchCache
  | .insert m => (c.insert m).2
  | .remove n => (c.remove n).2
  | .removeQuery query => (c.removeQuery query).2
  | .clear => c.clear
  | .join expirations m a now => (addMatch c expirations m a now).2.1

/-- The cache after operations on an empty one. -/
def run (ops : List (Operation Nat)) : MatchCache := ops.foldl perform .empty

theorem perform_step (c : MatchCache) (op : Operation Nat) (h : c.Sound) :
    (c.perform op).Sound ∧ c.Precedes (c.perform op).toPartialStore := by
  cases op with
  | insert m => exact ⟨sound_insert h m, precedes_insert h.toSound m⟩
  | remove n => exact ⟨sound_remove h n, precedes_remove c.toPartialStore n⟩
  | removeQuery query =>
    refine ⟨sound_removeQuery h query, ?_⟩
    show c.Precedes (List.foldl _ c (c.idsOf query)).toPartialStore
    rw [toPartialStore_foldl_remove]
    exact precedes_foldl_remove c.toPartialStore _
  | clear => exact ⟨sound_empty _, precedes_clear c.toPartialStore⟩
  | join expirations m a now =>
    rw [perform, addMatch_cache h]
    exact ⟨sound_insert h m, precedes_insert h.toSound m⟩

theorem sound_run (ops : List (Operation Nat)) : (run ops).Sound :=
  (precedes_foldl perform_step ops (sound_empty 0)).1

theorem precedes_run (ops more : List (Operation Nat)) :
    (run ops).Precedes (run (ops ++ more)).toPartialStore := by
  rw [run, run, List.foldl_append]
  exact (precedes_foldl perform_step more (sound_run ops)).2

/-- Besides finding what it holds in every way, a cache lists the matches of a query in the order of
their numbers and counts them. What is new gets the next number. -/
structure Exact (c : MatchCache) : Prop extends sound : c.Sound, c.toPartialStore.Exact where
  listed : ∀ query, (c.idsOf query).Pairwise (· < ·) ∧
    ∀ n, n ∈ c.idsOf query ↔ ∃ m, c.get? n = some m ∧ m.query = query
  counted : ∀ query, c.sizeOf query = (c.contentsOf query).length
  numbered : ∀ (m : PartialSolution Nat) (n : SolutionId),
    (c.insert m).1 = .inserted n → n = c.nextId

theorem Sound.exact (h : c.Sound) : c.Exact where
  sound := h
  toExact := h.toSound.exact
  listed query := ⟨ordered_idsOf c query, fun _ => mem_idsOf h⟩
  counted := sizeOf_eq h
  numbered _ _ := eq_nextId_of_inserted h.toSound

end MatchCache

namespace PartialStore

/-- Whatever has been done to a store of either join, each of its indexes lists exactly what it holds.
Whatever is done next, a number that has been given out is not given to anything else. -/
theorem exact_throughout :
    (∀ ops more : List (Operation PatternSet), (SolutionStore.run ops).Exact ∧
      (SolutionStore.run ops).Precedes (SolutionStore.run (ops ++ more)).toPartialStore) ∧
    ∀ ops more : List (Operation Nat), (MatchCache.run ops).Exact ∧
      (MatchCache.run ops).Precedes (MatchCache.run (ops ++ more)).toPartialStore :=
  ⟨fun ops more => ⟨(SolutionStore.sound_run ops).exact, SolutionStore.precedes_run ops more⟩,
    fun ops more => ⟨(MatchCache.sound_run ops).exact, MatchCache.precedes_run ops more⟩⟩

/-- A match that comes back after everything has been cleared gets a number of its own. -/
example : ((MatchCache.run [.insert ⟨1, 0, ∅, .never⟩, .clear]).insert
    ⟨1, 0, ∅, .never⟩).1 = .inserted 1 := by decide +kernel

end PartialStore

end StandingQuery
