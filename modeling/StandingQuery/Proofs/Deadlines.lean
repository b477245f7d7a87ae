import Mathlib.Data.List.Induction
import Mathlib.Logic.Function.Basic
import StandingQuery.Proofs.Expirations

/-! The book of expirations as a plain map.

Seen from outside, the book gives some entries a deadline, and that is a function from
entries to instants. Each operation changes this function in one line (`Operation.settle`),
and what it answers can be told from the function before (`Operation.Answers`): whether an
entry had a deadline, or which deadlines have passed, in their order. The two indexes are
one map kept both ways throughout, and nothing stays behind in one of them when the last
entry has gone from the other (`refines_deadlines`). -/
namespace StandingQuery
open Std

/-- When each entry ends, if it does. -/
abbrev Deadlines := Mortal → Option Nat

namespace Deadlines

/-- The earlier deadline comes first, and of two equal ones that of the first entry. -/
def Before (d : Deadlines) (e f : Mortal) : Prop :=
  ∃ s t, d e = some s ∧ d f = some t ∧ (s < t ∨ s = t ∧ compare e f = .lt)

/-- A list of the entries whose deadlines have passed at `now`, each once, in their order. -/
structure Passed (d : Deadlines) (now : Nat) (entries : List Mortal) : Prop where
  mem_iff : ∀ e, e ∈ entries ↔ ∃ t, d e = some t ∧ t ≤ now
  nodup : entries.Nodup
  ordered : entries.Pairwise d.Before

end Deadlines

namespace Expirations

/-- What is done to a book. -/
inductive Operation where
  | track (e : Mortal) (expiration : Expiration) [timely : expiration.Timely]
  | renew (e : Mortal) (expiration : Expiration) [timely : expiration.Timely]
  | untrack (e : Mortal)
  | removeExpired (now : Nat)
  | clear
deriving DecidableEq

/-- What it answers. -/
inductive Answer where
  | done
  | renewed (known : Bool)
  | removed (entries : List Mortal)
deriving DecidableEq

namespace Operation

/-- The answer of a book to an operation, and what becomes of the book. -/
def perform (x : Expirations) : Operation → Answer × Expirations
  | track e expiration => (.done, x.track e expiration)
  | renew e expiration => (.renewed (x.renew e expiration).1, (x.renew e expiration).2)
  | untrack e => (.done, x.untrack e)
  | removeExpired now => (.removed (x.removeExpired now).1, (x.removeExpired now).2)
  | clear => (.done, .empty)

/-- What becomes of the deadlines. -/
def settle (d : Deadlines) : Operation → Deadlines
  | track e expiration | renew e expiration => Function.update d e expiration.millis?
  | untrack e => Function.update d e none
  | removeExpired now => fun e => (d e).filter (now < ·)
  | clear => fun _ => none

/-- The right answers, given the deadlines. -/
def Answers (d : Deadlines) : Operation → Answer → Prop
  | renew e _, answer => answer = .renewed (d e).isSome
  | removeExpired now, answer => ∃ entries, answer = .removed entries ∧ d.Passed now entries
  | track _ _, answer | untrack _, answer | clear, answer => answer = .done

end Operation

/-- The book after operations on an empty one. -/
def run (ops : List Operation) : Expirations :=
  ops.foldl (fun x op => (op.perform x).2) .empty

/-- The deadlines after operations when there were none. -/
def deadlines (ops : List Operation) : Deadlines := ops.foldl Operation.settle fun _ => none

variable {x : Expirations} {now : Nat}

/-! ### One operation -/

theorem sound_perform (h : x.Sound) (op : Operation) : (op.perform x).2.Sound := by
  cases op with
  | track e expiration | renew e expiration => exact sound_track h e expiration
  | untrack e => exact sound_untrack h e
  | removeExpired now => exact sound_removeExpired h now
  | clear => exact sound_empty

/-- To strike an entry out is to write down that it never expires. -/
theorem find?_track_eq_update (x : Expirations) (e : Mortal) (expiration : Expiration) :
    (x.track e expiration).find? = Function.update x.find? e expiration.millis? := by
  funext f
  rw [find?_track, Function.update_apply]
  simp only [eq_comm]

theorem find?_perform (h : x.Sound) (op : Operation) :
    (op.perform x).2.find? = op.settle x.find? := by
  cases op with
  | track e expiration | renew e expiration => exact find?_track_eq_update x e expiration
  | untrack e => exact find?_track_eq_update x e .never
  | removeExpired now =>
    funext f
    show (x.removeExpired now).2.find? f = (x.find? f).filter (now < ·)
    rw [find?_removeExpired]
    simp only [mem_due h]
    cases hf : x.find? f with
    | none => simp
    | some t =>
      rw [Option.filter_some]
      by_cases ht : t ≤ now <;> simp [ht]
  | clear => rfl

theorem passed_due (h : x.Sound) (now : Nat) : Deadlines.Passed x.find? now (x.due now) where
  mem_iff _ := mem_due h
  nodup := nodup_due h now
  ordered := ordered_due h now

theorem answers_perform (h : x.Sound) (op : Operation) :
    op.Answers x.find? (op.perform x).1 := by
  cases op with
  | track e expiration | untrack e | clear => rfl
  | renew e expiration =>
    show Answer.renewed (x.byEntry.contains e) = .renewed x.byEntry[e]?.isSome
    rw [ExtTreeMap.isSome_getElem?_eq_contains]
  | removeExpired now => exact ⟨_, rfl, passed_due h now⟩

/-! ### Any number of operations -/

theorem sound_run (ops : List Operation) : (run ops).Sound := by
  induction ops using List.reverseRecOn with
  | nil => exact sound_empty
  | append_singleton ops op ih =>
    unfold run
    rw [List.foldl_append]
    exact sound_perform ih op

theorem find?_run (ops : List Operation) : (run ops).find? = deadlines ops := by
  induction ops using List.reverseRecOn with
  | nil => rfl
  | append_singleton ops op ih =>
    unfold run deadlines
    rw [List.foldl_append, List.foldl_append]
    exact (find?_perform (sound_run ops) op).trans (congrArg op.settle ih)

/-- A book without deadlines is empty on both sides. -/
theorem eq_empty_iff (h : x.Sound) : x = .empty ↔ ∀ e, x.find? e = none := by
  constructor
  · rintro rfl e
    rfl
  · intro hnone
    have hentry : x.byEntry = ∅ := ExtTreeMap.ext_getElem? hnone
    have htime : x.byTime = ∅ := ExtTreeMap.eq_empty_iff_forall_not_mem.2 fun t ht => by
      obtain ⟨e, he⟩ := (Buckets.mem_iff_of_tidy h.tidy).1 ht
      rw [h.agree, hnone] at he
      cases he
    cases x
    cases hentry
    cases htime
    rfl

/-- Whatever has been done to a book, it gives the entries the deadlines that a plain map would, it
answers whatever is asked next as the deadlines say, its two sides are inverse to each other, and
no bucket is empty. An eviction leaves nothing on either side if every deadline has passed, as it
has at the latest instant there is. -/
theorem refines_deadlines (ops : List Operation) :
    (run ops).find? = deadlines ops ∧
      (∀ op : Operation, op.Answers (deadlines ops) (op.perform (run ops)).1) ∧
      (∀ t e, e ∈ (run ops).byTime.find t ↔ (run ops).byEntry[e]? = some t) ∧
      (∀ (t : Nat) (entries : ExtTreeSet Mortal), (run ops).byTime[t]? = some entries →
        entries.isEmpty = false) ∧
      ∀ now, ((run ops).removeExpired now).2 = .empty ↔
        ∀ e t, deadlines ops e = some t → t ≤ now := by
  have hsound := sound_run ops
  have hfind := find?_run ops
  refine ⟨hfind, fun op => ?_, hsound.agree, hsound.tidy, fun now => ?_⟩
  · rw [← hfind]
    exact answers_perform hsound op
  · rw [eq_empty_iff (sound_removeExpired hsound now), ← hfind]
    refine forall_congr' fun e => ?_
    rw [find?_removeExpired]
    simp only [mem_due hsound]
    cases (run ops).find? e <;> simp

/-- Everything is due at the latest instant, a query before a solution. -/
example : ((run [.track (.solution 1) (.instant latest), .track (.query 7) (.instant latest),
    .renew (.solution 1) (.instant latest)]).removeExpired latest) =
      ([.query 7, .solution 1], .empty) := by decide +kernel

end Expirations

end StandingQuery
