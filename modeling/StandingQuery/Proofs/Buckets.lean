import Mathlib.Tactic.ByContra
import StandingQuery.Index.Buckets

/-! What is filed in buckets.

A bucket goes when its last member goes: what is left of it is put back or erased
(`erase_or_insert_self`). Buckets are a relation between keys and things: `add` and `discard` change it at one
pair, and a bucket that is there has something in it (`Tidy`), so that the keys are
exactly those under which something is filed. -/
set_option linter.unusedSectionVars false

namespace StandingQuery
open Std

section Leftover

variable {α β : Type} [Ord α] [TransOrd α] [LawfulEqOrd α] {m : ExtTreeMap α β} {k l : α} {v : β}
variable {gone : Prop} [Decidable gone]

/-- One entry is replaced, or has gone. -/
theorem erase_or_insert_self : (if gone then m.erase k else m.insert k v)[k]? =
    if gone then none else some v := by
  split
  · exact ExtTreeMap.getElem?_erase_self
  · exact ExtTreeMap.getElem?_insert_self

/-- The others stay as they are. -/
theorem erase_or_insert_of_ne (h : k ≠ l) :
    (if gone then m.erase k else m.insert k v)[l]? = m[l]? := by
  have hne : ¬ compare k l = .eq := fun he => h (Std.compare_eq_iff_eq.1 he)
  split
  · rw [ExtTreeMap.getElem?_erase, if_neg hne]
  · rw [ExtTreeMap.getElem?_insert, if_neg hne]

/-- What holds of all entries goes on to hold if it holds of what is put back. -/
theorem forall_erase_or_insert {P : β → Prop} (h : ∀ (l : α) (v : β), m[l]? = some v → P v)
    (hv : ¬ gone → P v) {v' : β} (hl : (if gone then m.erase k else m.insert k v)[l]? = some v') :
    P v' := by
  by_cases hk : k = l
  · subst hk
    rw [erase_or_insert_self] at hl
    split at hl
    · cases hl
    · next hgone =>
      cases hl
      exact hv hgone
  · rw [erase_or_insert_of_ne hk] at hl
    exact h l v' hl

end Leftover

namespace Buckets

variable {κ ι : Type} [Ord κ] [TransOrd κ] [LawfulEqOrd κ] [Ord ι] [TransOrd ι] [LawfulEqOrd ι]
variable {b : Buckets κ ι} {k l : κ} {i j : ι}

/-- No bucket is empty. -/
def Tidy (b : Buckets κ ι) : Prop :=
  ∀ (k : κ) (s : ExtTreeSet ι), b[k]? = some s → s.isEmpty = false

theorem find_empty : find (∅ : Buckets κ ι) k = ∅ := by
  simp [find]

theorem find_insert_self {s : ExtTreeSet ι} : find (b.insert k s) k = s := by
  simp [find]

theorem find_insert_of_ne {s : ExtTreeSet ι} (h : k ≠ l) : find (b.insert k s) l = find b l := by
  simp [find, ExtTreeMap.getElem?_insert, h]

theorem mem_find_add : j ∈ find (b.add k i) l ↔ (l = k ∧ j = i) ∨ j ∈ find b l := by
  unfold add
  by_cases h : k = l
  · subst h
    rw [find_insert_self, ExtTreeSet.mem_insert, Std.compare_eq_iff_eq]
    simp [eq_comm]
  · rw [find_insert_of_ne h]
    simp [Ne.symm h]

theorem find_discard_self : find (b.discard k i) k = (find b k).erase i := by
  rw [find, discard, erase_or_insert_self]
  split
  · next hempty => exact (ExtTreeSet.isEmpty_iff.1 hempty).symm
  · rfl

theorem find_discard_of_ne (h : k ≠ l) : find (b.discard k i) l = find b l := by
  rw [find, discard, erase_or_insert_of_ne h]
  rfl

theorem mem_find_discard :
    j ∈ find (b.discard k i) l ↔ j ∈ find b l ∧ ¬ (l = k ∧ j = i) := by
  by_cases h : k = l
  · subst h
    rw [find_discard_self, ExtTreeSet.mem_erase, and_comm, ne_eq, Std.compare_eq_iff_eq, eq_comm]
    simp
  · rw [find_discard_of_ne h]
    simp [Ne.symm h]

theorem tidy_add (h : Tidy b) : Tidy (b.add k i) := by
  intro l s hs
  unfold add at hs
  rw [ExtTreeMap.getElem?_insert] at hs
  split at hs
  · cases hs
    simp
  · exact h l s hs

theorem tidy_discard (h : Tidy b) : Tidy (b.discard k i) := by
  intro l s hs
  unfold discard at hs
  exact forall_erase_or_insert (m := b) (P := fun s => s.isEmpty = false) h
    (fun hempty => by simpa using hempty) hs

theorem tidy_empty : Tidy (∅ : Buckets κ ι) := by
  intro k s hs
  simp at hs

/-- The keys are those under which something is filed. -/
theorem mem_iff_of_tidy (h : Tidy b) : k ∈ b ↔ ∃ i, i ∈ find b k := by
  rw [ExtTreeMap.mem_iff_isSome_getElem?, Option.isSome_iff_exists]
  unfold find
  constructor
  · rintro ⟨s, hs⟩
    have hne : s ≠ ∅ := ExtTreeSet.isEmpty_eq_false_iff.1 (h k s hs)
    rw [hs, Option.getD_some]
    by_contra hnone
    exact hne (ExtTreeSet.eq_empty_iff_forall_not_mem.2 fun i hi => hnone ⟨i, hi⟩)
  · rintro ⟨i, hi⟩
    cases hs : b[k]? with
    | none => simp [hs] at hi
    | some s => exact ⟨s, rfl⟩

/-! ### Filing one thing under several keys -/

theorem mem_find_foldl_add {ks : List κ} :
    j ∈ find (ks.foldl (fun b k => b.add k i) b) l ↔ (l ∈ ks ∧ j = i) ∨ j ∈ find b l := by
  induction ks generalizing b with
  | nil => simp
  | cons k ks ih =>
    rw [List.foldl_cons, ih, mem_find_add, List.mem_cons, or_and_right, ← or_assoc,
      or_comm (a := l ∈ ks ∧ j = i)]

theorem mem_find_foldl_discard {ks : List κ} :
    j ∈ find (ks.foldl (fun b k => b.discard k i) b) l ↔ j ∈ find b l ∧ ¬ (l ∈ ks ∧ j = i) := by
  induction ks generalizing b with
  | nil => simp
  | cons k ks ih =>
    rw [List.foldl_cons, ih, mem_find_discard, List.mem_cons, or_and_right, not_or, and_assoc]

theorem tidy_foldl_add {ks : List κ} (h : Tidy b) : Tidy (ks.foldl (fun b k => b.add k i) b) := by
  induction ks generalizing b with
  | nil => exact h
  | cons k ks ih => exact ih (tidy_add h)

theorem tidy_foldl_discard {ks : List κ} (h : Tidy b) :
    Tidy (ks.foldl (fun b k => b.discard k i) b) := by
  induction ks generalizing b with
  | nil => exact h
  | cons k ks ih => exact ih (tidy_discard h)

end Buckets

end StandingQuery
