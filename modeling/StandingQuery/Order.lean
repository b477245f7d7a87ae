import Std.Data.ExtTreeMap
import Std.Data.ExtTreeSet

/-! Orders on keys.

Every index of the library is a finite map sorted by its key. A key is a record
of parts that are themselves ordered, compared part by part: `compareOn` compares
one part and `compareLex` puts a second comparison behind a first. Both are lawful
as soon as the parts together determine the key, which is what this module states. -/
namespace StandingQuery
open Std

theorem compare_self_eq [Ord β] [LawfulEqOrd β] (b : β) : compare b b = .eq := ReflOrd.compare_self

/-- Keys that compare equal through a part agree on it. -/
theorem eq_of_compareOn_eq [Ord β] [LawfulEqOrd β] {f : α → β} {a b : α}
    (h : compareOn f a b = .eq) : f a = f b :=
  LawfulEqOrd.eq_of_compare h

/-- A comparison through an injective part tells keys apart. -/
theorem lawfulEqCmp_compareOn [Ord β] [LawfulEqOrd β] {f : α → β}
    (injective : ∀ {a b}, f a = f b → a = b) : LawfulEqCmp (compareOn f) where
  compare_self := compare_self_eq _
  eq_of_compare h := injective (eq_of_compareOn_eq h)

theorem compareLex_eq_eq {first second : α → α → Ordering} {a b : α} :
    compareLex first second a b = .eq ↔ first a b = .eq ∧ second a b = .eq := by
  simp [compareLex, Ordering.then_eq_eq]

/-- Two parts that together determine the key compare lawfully. -/
theorem lawfulEqCmp_compareLex [Ord β] [LawfulEqOrd β] {f : α → β}
    {second : α → α → Ordering} [ReflCmp second]
    (determined : ∀ {a b}, f a = f b → second a b = .eq → a = b) :
    LawfulEqCmp (compareLex (compareOn f) second) where
  compare_self := compareLex_eq_eq.2 ⟨compare_self_eq _, ReflCmp.compare_self⟩
  eq_of_compare h := by
    obtain ⟨hf, hs⟩ := compareLex_eq_eq.1 h
    exact determined (eq_of_compareOn_eq hf) hs

end StandingQuery
