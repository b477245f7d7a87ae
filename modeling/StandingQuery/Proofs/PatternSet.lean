import Mathlib.Data.Finset.Card
import Mathlib.Data.Nat.Bitwise
import StandingQuery.PatternSet

/-! Sets of pattern indices as sets.

A `PatternSet` is determined by its members, and every operation is stated by what
it does to membership. `members` is the same set as a `Finset`, for counting and for
taking minima over it. -/
namespace StandingQuery

namespace PatternSet

variable {s t : PatternSet} {i j n : Nat}

theorem mem_iff : i ∈ s ↔ s.bits.testBit i = true := Iff.rfl

theorem contains_iff : s.contains i = true ↔ i ∈ s := Iff.rfl

theorem ext_mem (h : ∀ i, i ∈ s ↔ i ∈ t) : s = t := by
  cases s
  cases t
  congr 1
  exact Nat.eq_of_testBit_eq fun i => Bool.eq_iff_iff.2 (h i)

@[simp] theorem not_mem_empty : i ∉ (∅ : PatternSet) := by
  rw [mem_iff]
  show ¬ Nat.testBit 0 i = true
  simp

@[simp] theorem mem_single : i ∈ single j ↔ i = j := by
  rw [mem_iff]
  show Nat.testBit (1 <<< j) i = true ↔ _
  rw [Nat.one_shiftLeft, Nat.testBit_two_pow]
  simp [eq_comm]

@[simp] theorem mem_union : i ∈ s ∪ t ↔ i ∈ s ∨ i ∈ t := by
  rw [mem_iff]
  show Nat.testBit (s.bits ||| t.bits) i = true ↔ _
  rw [Nat.testBit_or, Bool.or_eq_true]
  rfl

@[simp] theorem mem_full : i ∈ full n ↔ i < min n capacity := by
  rw [mem_iff]
  show Nat.testBit ((1 <<< min n capacity) - 1) i = true ↔ _
  rw [Nat.one_shiftLeft, Nat.testBit_two_pow_sub_one]
  simp

theorem mem_unions {l : List PatternSet} : i ∈ unions l ↔ ∃ s ∈ l, i ∈ s := by
  induction l with
  | nil => simp [unions]
  | cons s rest ih => simp [unions, ih]

theorem disjoint_iff : s.disjoint t = true ↔ ∀ i ∈ s, i ∉ t := by
  unfold disjoint
  rw [beq_iff_eq]
  constructor
  · intro h i hs ht
    have := congrArg (Nat.testBit · i) h
    simp only [Nat.testBit_and, Nat.zero_testBit, Bool.and_eq_false_iff] at this
    rcases this with h' | h'
    · exact absurd hs (by rw [mem_iff, h']; decide)
    · exact absurd ht (by rw [mem_iff, h']; decide)
  · intro h
    refine Nat.eq_of_testBit_eq fun i => ?_
    rw [Nat.testBit_and, Nat.zero_testBit, Bool.and_eq_false_iff]
    by_cases hs : i ∈ s
    · exact .inr (by simpa [mem_iff] using h i hs)
    · exact .inl (by simpa [mem_iff] using hs)

/-- A member is below the logarithm of the bits, so `indices` looks far enough. -/
theorem le_log2_of_mem (h : i ∈ s) : i ≤ s.bits.log2 := by
  have hle : 2 ^ i ≤ s.bits := Nat.ge_two_pow_of_testBit h
  exact (Nat.le_log2 (by have := Nat.two_pow_pos i; omega)).2 hle

@[simp] theorem mem_indices : i ∈ s.indices ↔ i ∈ s := by
  unfold indices
  rw [List.mem_filter, List.mem_range]
  constructor
  · exact fun h => h.2
  · exact fun h => ⟨Nat.lt_succ_of_le (le_log2_of_mem h), h⟩

theorem nodup_indices : s.indices.Nodup := List.nodup_range.filter _

/-- Looking further finds no more members. -/
theorem indices_eq (h : ∀ i ∈ s, i < n) : s.indices = (List.range n).filter s.contains := by
  have hsorted : ∀ m, ((List.range m).filter s.contains).Pairwise (· < ·) :=
    fun m => List.pairwise_lt_range.filter _
  refine List.Perm.eq_of_pairwise (fun i j _ _ hij hji => absurd hij (Nat.lt_asymm hji))
    (hsorted _) (hsorted n) ?_
  refine (List.perm_ext_iff_of_nodup nodup_indices (List.nodup_range.filter _)).2 fun i => ?_
  rw [mem_indices, List.mem_filter, List.mem_range]
  exact ⟨fun hi => ⟨h i hi, hi⟩, And.right⟩

/-- The members as a finite set. -/
def members (s : PatternSet) : Finset Nat := s.indices.toFinset

@[simp] theorem mem_members : i ∈ s.members ↔ i ∈ s := by
  rw [members, List.mem_toFinset, mem_indices]

theorem members_union : (s ∪ t).members = s.members ∪ t.members := by
  ext i
  simp

theorem members_single : (single i).members = {i} := by
  ext j
  simp

theorem card_members : s.members.card = s.size := by
  rw [members, List.toFinset_card_of_nodup nodup_indices]
  rfl

/-- The size of a union of disjoint sets is the sum. -/
theorem size_union (h : s.disjoint t = true) : (s ∪ t).size = s.size + t.size := by
  rw [← card_members, ← card_members, ← card_members, members_union]
  refine Finset.card_union_of_disjoint (Finset.disjoint_left.2 fun i hs ht => ?_)
  exact disjoint_iff.1 h i (mem_members.1 hs) (mem_members.1 ht)

/-- A set of indices below `n` has at most `n` members. -/
theorem size_le (h : ∀ i ∈ s, i < n) : s.size ≤ n := by
  rw [← card_members, ← Finset.card_range n]
  exact Finset.card_le_card fun i hi => Finset.mem_range.2 (h i (mem_members.1 hi))

end PatternSet

end StandingQuery
