import Mathlib.Logic.Function.Iterate
import Mathlib.Order.Monotone.Basic
import StandingQuery.Proofs.Partners

/-! The queue of a propagation.

A propagation works off a queue: what has waited longest is stored, and what it is joined to waits
behind the rest (`Worklist.next`). It stores into the store that it looks partners up in, but all that
it stores covers the patterns it has started from, and partners are for other patterns, so they were
there before (`Underway.joined`). What is joined covers more patterns, and there are only so many, so
the queue runs dry, with what `propagate` comes to in rounds (`propagation_ends`). -/
namespace StandingQuery
open Std

namespace SolutionStore
open PartialSolution PartialStore

/-- A propagation under way: what it has come to, and what waits to be stored. -/
structure Worklist where
  progress : Progress
  waiting : List (PartialSolution PatternSet)

/-- Stores what has waited longest. What it is joined to waits behind the rest. -/
def Worklist.next (a : Analysis) (now : Nat) (w : Worklist) : Worklist :=
  match w.waiting with
  | [] => w
  | p :: rest => ⟨(absorb a now w.progress p).1, rest ++ (absorb a now w.progress p).2⟩

/-- Nothing has been done yet, and the seed waits. -/
def Worklist.start (s : SolutionStore) (x : Expirations) (seed : PartialSolution PatternSet) :
    Worklist := ⟨{ store := s, expirations := x }, [seed]⟩

/-- A propagation after some steps. -/
def propagating (s : SolutionStore) (x : Expirations) (seed : PartialSolution PatternSet)
    (a : Analysis) (now n : Nat) : Worklist :=
  (Worklist.next a now)^[n] (.start s x seed)

variable {s : SolutionStore} {x : Expirations} {a : Analysis} {now n j k : Nat} {w : Worklist}
variable {seed p q : PartialSolution PatternSet} {rest : List (PartialSolution PatternSet)}

theorem propagating_succ :
    propagating s x seed a now (n + 1) = (propagating s x seed a now n).next a now :=
  Function.iterate_succ_apply' _ _ _

theorem Worklist.next_nil (h : w.waiting = []) : w.next a now = w := by
  unfold next
  rw [h]

theorem Worklist.next_cons (h : w.waiting = p :: rest) : w.next a now =
    ⟨(absorb a now w.progress p).1, rest ++ (absorb a now w.progress p).2⟩ := by
  unfold next
  rw [h]

/-- What waits contains the patterns that the propagation has started from, and so does what it
has stored. -/
structure Underway (s : SolutionStore) (seed : PartialSolution PatternSet) (a : Analysis)
    (w : Worklist) : Prop where
  sound : w.progress.store.Sound
  stored : ∀ n q, w.progress.store.get? n = some q → q.query = seed.query →
    (∀ i ∈ q.part, i < a.size) ∧ (s.get? n = some q ∨ ∀ i ∈ seed.part, i ∈ q.part)
  query : ∀ p ∈ w.waiting, p.query = seed.query
  inRange : ∀ p ∈ w.waiting, ∀ i ∈ p.part, i < a.size
  contains : ∀ p ∈ w.waiting, ∀ i ∈ seed.part, i ∈ p.part
  /-- From no patterns at all nothing starts. -/
  nonempty : ∀ p ∈ w.waiting, ∀ i ∈ p.part, ∃ j, j ∈ seed.part

/-- What is joined is made with something that was there before, for other patterns. -/
theorem Underway.joined (h : Underway s seed a w) (hw : w.waiting = p :: rest)
    (hq : q ∈ (absorb a now w.progress p).2) : ∃ n r, s.get? n = some r ∧ p.join r = q ∧
      r.part.disjoint p.part = true ∧ (∃ i, i ∈ r.part) ∧ (∀ i ∈ r.part, i < a.size) ∧
      ∃ i, i ∈ seed.part := by
  have hp : p ∈ w.waiting := hw ▸ List.mem_cons_self
  obtain ⟨r, hr, hjoin⟩ := mem_absorb hq
  obtain ⟨⟨n, hn⟩, hquery, hdisjoint, hadjacent⟩ := of_mem_partners (sound_insert h.sound p) hr
  obtain ⟨⟨i, hi⟩, j, hj⟩ := Analysis.exists_of_adjacent hadjacent
  obtain ⟨k, hk⟩ := h.nonempty p hp i hi
  have hapart : k ∉ r.part := fun hkr =>
    PatternSet.disjoint_iff.1 hdisjoint k hkr (h.contains p hp k hk)
  -- What has been stored on the way has the patterns of the seed, and a partner has not.
  rcases of_get?_insert h.sound.toSound hn with rfl | hn
  · exact absurd (h.contains r hp k hk) hapart
  · obtain ⟨hrange, hold | hnew⟩ := h.stored n r hn (hquery.trans (h.query p hp))
    · exact ⟨n, r, hold, hjoin, hdisjoint, ⟨j, hj⟩, hrange, k, hk⟩
    · exact absurd (hnew k hk) hapart

theorem Underway.next (h : Underway s seed a w) (now : Nat) : Underway s seed a (w.next a now) := by
  cases hw : w.waiting with
  | nil =>
    rw [Worklist.next_nil hw]
    exact h
  | cons p rest =>
    have hp : p ∈ w.waiting := hw ▸ List.mem_cons_self
    have hrest : ∀ q ∈ rest, q ∈ w.waiting := fun q hq => hw ▸ List.mem_cons_of_mem _ hq
    rw [Worklist.next_cons hw]
    constructor
    · rw [absorb_store h.sound]
      exact sound_insert h.sound p
    · intro n q hq hquery
      rw [absorb_store h.sound] at hq
      rcases of_get?_insert h.sound.toSound hq with rfl | hq
      · exact ⟨h.inRange q hp, .inr (h.contains q hp)⟩
      · exact h.stored n q hq hquery
    · intro q hq
      rcases List.mem_append.1 hq with hq | hq
      · exact h.query q (hrest q hq)
      · obtain ⟨-, r, -, rfl, -⟩ := h.joined hw hq
        exact h.query p hp
    · intro q hq i hi
      rcases List.mem_append.1 hq with hq | hq
      · exact h.inRange q (hrest q hq) i hi
      · obtain ⟨-, r, -, rfl, -, -, hr, -⟩ := h.joined hw hq
        exact (PatternSet.mem_union.1 hi).elim (h.inRange p hp i) (hr i)
    · intro q hq i hi
      rcases List.mem_append.1 hq with hq | hq
      · exact h.contains q (hrest q hq) i hi
      · obtain ⟨-, r, -, rfl, -⟩ := h.joined hw hq
        exact PatternSet.mem_union.2 (.inl (h.contains p hp i hi))
    · intro q hq i hi
      rcases List.mem_append.1 hq with hq | hq
      · exact h.nonempty q (hrest q hq) i hi
      · obtain ⟨-, -, -, -, -, -, -, hseed⟩ := h.joined hw hq
        exact hseed

theorem underway_start (h : s.Sound)
    (hstored : ∀ n q, s.get? n = some q → q.query = seed.query → ∀ i ∈ q.part, i < a.size)
    (hseed : ∀ i ∈ seed.part, i < a.size) : Underway s seed a (.start s x seed) where
  sound := h
  stored n q hq hquery := ⟨hstored n q hq hquery, .inl hq⟩
  query p hp := by rw [List.mem_singleton.1 hp]
  inRange p hp := by
    rw [List.mem_singleton.1 hp]
    exact hseed
  contains p hp i hi := by rwa [List.mem_singleton.1 hp]
  nonempty p hp i hi := by
    rw [List.mem_singleton.1 hp] at hi
    exact ⟨i, hi⟩

theorem underway_propagating (h : Underway s seed a (.start s x seed)) (now n : Nat) :
    Underway s seed a (propagating s x seed a now n) := by
  induction n with
  | zero => exact h
  | succ n ih =>
    rw [propagating_succ]
    exact ih.next now

theorem Underway.grows (h : Underway s seed a w) (hw : w.waiting = p :: rest)
    (hq : q ∈ (absorb a now w.progress p).2) : p.part.size < q.part.size := by
  obtain ⟨-, r, -, rfl, hdisjoint, ⟨i, hi⟩, -⟩ := h.joined hw hq
  exact size_lt_join hdisjoint hi

/-- Joining in rounds takes up what waits in the same order, so it comes to the same. -/
theorem exists_propagating_eq (h : Underway s seed a (.start s x seed)) (now : Nat) :
    ∃ n, propagating s x seed a now n = ⟨propagate s x seed a now, []⟩ := by
  -- In the middle of a round, what is left of it waits before what it has been joined to so far.
  refine (rounds_induct (I := fun t work => Underway s seed a ⟨t, work⟩ ∧
    ∃ n, propagating s x seed a now n = ⟨t, work⟩) a.size ?_ ?_ ?_ (a.size + 1) 0 _ _
    ⟨h, 0, rfl⟩ (fun p _ => Nat.zero_le _) (by omega)).2
  · intro t p rest ⟨ht, n, hn⟩
    have hnext : Worklist.next a now ⟨t, p :: rest⟩ =
        ⟨(absorb a now t p).1, rest ++ (absorb a now t p).2⟩ := Worklist.next_cons rfl
    refine ⟨hnext ▸ ht.next now, n + 1, ?_⟩
    rw [propagating_succ, hn, hnext]
  · exact fun t p rest ht q hq => ht.1.grows rfl hq
  · exact fun t work ht p hp => PatternSet.size_le (ht.1.inRange p hp)

/-- Whatever waits is the seed, or was joined at a step from what was stored in it. -/
theorem eq_seed_or_joined (h : Underway s seed a (.start s x seed))
    (hq : q ∈ (propagating s x seed a now k).waiting) :
    q = seed ∨ ∃ j < k, ∃ p n r, (propagating s x seed a now j).waiting.head? = some p ∧
      s.get? n = some r ∧ p.join r = q ∧ p.part.members ⊂ q.part.members := by
  induction k with
  | zero => exact .inl (List.mem_singleton.1 hq)
  | succ k ih =>
    have hearlier (hq : q ∈ (propagating s x seed a now k).waiting) :=
      (ih hq).imp_right (Exists.imp fun _ => And.imp_left Nat.lt_succ_of_lt)
    rw [propagating_succ] at hq
    cases hw : (propagating s x seed a now k).waiting with
    | nil =>
      rw [Worklist.next_nil hw] at hq
      exact hearlier hq
    | cons p rest =>
      rw [Worklist.next_cons hw] at hq
      rcases List.mem_append.1 hq with hq | hq
      · exact hearlier (hw ▸ List.mem_cons_of_mem _ hq)
      · obtain ⟨n, r, hr, rfl, hdisjoint, ⟨i, hi⟩, -⟩ := (underway_propagating h now k).joined hw hq
        exact .inr ⟨k, Nat.lt_succ_self k, p, n, r, by rw [hw]; rfl, hr, rfl,
          members_ssubset_join hdisjoint hi⟩

/-- Nothing that a propagation stores lives shorter later on. -/
theorem le_life_propagating (h : Underway s seed a (.start s x seed)) (hjk : j ≤ k)
    (key : Key PatternSet) : (propagating s x seed a now j).progress.store.life key ≤
      (propagating s x seed a now k).progress.store.life key := by
  refine monotone_nat_of_le_succ
    (f := fun n => (propagating s x seed a now n).progress.store.life key) (fun n => ?_) hjk
  have hsound := (underway_propagating h now n).sound
  rw [propagating_succ]
  cases hw : (propagating s x seed a now n).waiting with
  | nil => rw [Worklist.next_nil hw]
  | cons p rest =>
    rw [Worklist.next_cons hw, absorb_store hsound]
    exact le_life_insert hsound.toSound p key

/-- What has been stored once makes no work when it comes again to live no longer. -/
theorem propagating_again (h : Underway s seed a (.start s x seed)) (hjk : j < k)
    (hp : (propagating s x seed a now j).waiting.head? = some p)
    (hq : (propagating s x seed a now k).waiting = q :: rest) (hpart : q.part = p.part)
    (hbinding : q.binding = p.binding) (hexpiration : q.expiration ≤ p.expiration) :
    propagating s x seed a now (k + 1) = ⟨(propagating s x seed a now k).progress, rest⟩ := by
  obtain ⟨earlier, hw⟩ := List.head?_eq_some_iff.1 hp
  have hj := underway_propagating h now j
  have hk := underway_propagating h now k
  have hkey : q.key = p.key := by
    have hquery := (hk.query q (hq ▸ List.mem_cons_self)).trans
      (hj.query p (hw ▸ List.mem_cons_self)).symm
    unfold key
    rw [hquery, hpart, hbinding]
  have hstored : (p.expiration : Life) ≤ (propagating s x seed a now (j + 1)).progress.store.life
      p.key := by
    rw [propagating_succ, Worklist.next_cons hw, absorb_store hj.sound,
      toPartialStore_insert, life_insert_self hj.sound.toSound]
    exact le_sup_right
  have hlife : (q.expiration : Life) ≤ (propagating s x seed a now k).progress.store.life q.key :=
    calc (q.expiration : Life)
      _ ≤ p.expiration := WithBot.coe_le_coe.2 hexpiration
      _ ≤ (propagating s x seed a now (j + 1)).progress.store.life p.key := hstored
      _ ≤ (propagating s x seed a now k).progress.store.life p.key := le_life_propagating h hjk _
      _ = (propagating s x seed a now k).progress.store.life q.key := by rw [hkey]
  have hnone : ((propagating s x seed a now k).progress.store.insert q).1.id? = none :=
    Option.not_isSome_iff_eq_none.1 fun hsome =>
      ((insert_changes_iff hk.sound q).1 hsome).not_ge hlife
  rw [propagating_succ, Worklist.next_cons hq, absorb_none hnone, List.append_nil]

/-- From a seed over the patterns of an analysis, and whatever a store holds over them for the
query, a propagation empties its queue, and with what joining in rounds comes to. Whatever waits is the
seed, or was joined at an earlier step, from what was stored in it and something that the store held
before the propagation, and covers more patterns than what was stored. What was stored before, for the
same patterns and with the same binding, makes no work when it comes again to expire no later: nothing
changes but that it no longer waits. -/
theorem propagation_ends (ops : List (Operation PatternSet))
    (hstored : ∀ n q, (run ops).get? n = some q → q.query = seed.query →
      ∀ i ∈ q.part, i < a.size)
    (hseed : ∀ i ∈ seed.part, i < a.size) (x : Expirations) (now : Nat) :
    (∃ n, propagating (run ops) x seed a now n =
      ⟨propagate (run ops) x seed a now, []⟩) ∧
    (∀ k, ∀ q ∈ (propagating (run ops) x seed a now k).waiting, q = seed ∨
      ∃ j < k, ∃ p n r, (propagating (run ops) x seed a now j).waiting.head? = some p ∧
        (run ops).get? n = some r ∧ p.join r = q ∧ p.part.members ⊂ q.part.members) ∧
    ∀ j k p q rest, j < k → (propagating (run ops) x seed a now j).waiting.head? = some p →
      (propagating (run ops) x seed a now k).waiting = q :: rest →
      q.part = p.part → q.binding = p.binding → q.expiration ≤ p.expiration →
      propagating (run ops) x seed a now (k + 1) =
        ⟨(propagating (run ops) x seed a now k).progress, rest⟩ := by
  have hstart := underway_start (x := x) (sound_run ops) hstored hseed
  exact ⟨exists_propagating_eq hstart now, fun _ _ => eq_seed_or_joined hstart,
    fun _ _ _ _ _ => propagating_again hstart⟩

/-- Between the outer edges of a row comes the middle one. The whole row is joined twice, by way of
either of the outer edges, and stored once: when it comes again, nothing happens. -/
theorem propagation_ends_path :
    let s := run [.insert (hop 0 "x" "y" .never), .insert (hop 2 "z" "u" (.instant 5000))]
    let after := propagating s {} (hop 1 "y" "z" .never) (.ofPattern path) 1000
    let row := ((hop 1 "y" "z" .never).join (hop 0 "x" "y" .never)).join
      (hop 2 "z" "u" (.instant 5000))
    let again := ((hop 1 "y" "z" .never).join (hop 2 "z" "u" (.instant 5000))).join
      (hop 0 "x" "y" .never)
    (after 3).waiting = [row, again] ∧ (after 4).waiting = [again] ∧
      after 5 = ⟨(after 4).progress, []⟩ := by
  intro s after row again
  have hbound : ∀ q ∈ s.contentsOf 1, ∀ i ∈ q.part.indices, i < 3 := by decide +kernel
  have hstored : ∀ n q, s.get? n = some q → q.query = 1 → ∀ i ∈ q.part, i < 3 :=
    fun n q hn hq i hi => hbound q (mem_contentsOf.2 ⟨⟨n, hn⟩, hq⟩) i (PatternSet.mem_indices.2 hi)
  have hseed : ∀ i ∈ (hop 1 "y" "z" .never).part, i < 3 :=
    fun i hi => PatternSet.mem_single.1 hi ▸ by decide
  have h3 : (after 3).waiting = [row, again] := by decide +kernel
  have h4 : (after 4).waiting = [again] := by decide +kernel
  have hbinding : again.binding = row.binding := by decide +kernel
  obtain ⟨-, -, hagain⟩ := propagation_ends (a := .ofPattern path) _ hstored hseed {} 1000
  exact ⟨h3, h4, hagain 3 4 row again [] (by decide) (by rw [h3]; rfl) h4 rfl hbinding le_rfl⟩

end SolutionStore

end StandingQuery
