import Mathlib.Order.WithBot
import Mathlib.Order.Lattice
import StandingQuery.Lifetime

/-! The order of lifetimes.

Expirations are linearly ordered with `never` on top, and something has expired at
`now` when its expiration is at most the instant `now`. A *life* is an expiration or
`⊥`, the life of what was never there: absent and expired are then both "at most
now", and what matters of a life at `now` is `l ⊔ now`, which forgets how long ago
it ended. -/
namespace StandingQuery

namespace Expiration

theorem le_iff_not_lt {a b : Expiration} : a ≤ b ↔ ¬ b < a := Iff.rfl

instance : LinearOrder Expiration where
  le_refl a := by cases a <;> simp [le_iff_not_lt]
  le_trans a b c := by
    cases a <;> cases b <;> cases c <;> simp [le_iff_not_lt]
    omega
  le_antisymm a b := by
    cases a <;> cases b <;> simp [le_iff_not_lt]
    omega
  le_total a b := by
    cases a <;> cases b <;> simp [le_iff_not_lt]
    omega
  lt_iff_le_not_ge a b := by
    cases a <;> cases b <;> simp [le_iff_not_lt]
    omega
  toDecidableLE := inferInstance
  toDecidableLT := inferInstance
  min_def a b := by
    show (if b < a then b else a) = if ¬ b < a then a else b
    by_cases h : b < a <;> simp [h]

instance : OrderTop Expiration where
  top := never
  le_top a := by cases a <;> simp [le_iff_not_lt]

theorem expiredAt_iff {e : Expiration} {now : Nat} : e.expiredAt now = true ↔ e ≤ instant now := by
  cases e with
  | instant t => simp [expiredAt, le_iff_not_lt]
  | never => simp [expiredAt, le_iff_not_lt]

theorem not_expiredAt_iff {e : Expiration} {now : Nat} :
    e.expiredAt now = false ↔ instant now < e := by
  rw [← not_le, ← expiredAt_iff, Bool.not_eq_true]

theorem millis?_eq_some_iff {e : Expiration} {t : Nat} : e.millis? = some t ↔ e = instant t := by
  cases e <;> simp [millis?]

theorem instant_le_instant {s t : Nat} : instant s ≤ instant t ↔ s ≤ t := by
  simp [le_iff_not_lt]

/-- The end is one of the instants there are, or never comes. -/
class Timely (e : Expiration) : Prop where
  le_latest : ∀ t, e.millis? = some t → t ≤ latest

instance : Timely never := ⟨fun t h => by cases h⟩

instance : Timely (instant latest) := ⟨fun t h => by rw [Option.some.inj h]⟩

instance (now ttl : Nat) : Timely (ofTtl now ttl) := ⟨fun t h => by
  rw [millis?_eq_some_iff, ofTtl] at h
  split at h
  · cases h
  · rw [← instant.inj h]
    exact min_le_right _ _⟩

instance (a b : Expiration) [ha : a.Timely] [hb : b.Timely] : Timely (min a b) := by
  rcases le_total a b with h | h
  · rwa [min_eq_left h]
  · rwa [min_eq_right h]

end Expiration

/-- How long something lives: `⊥` if it never was. -/
abbrev Life := WithBot Expiration

namespace Life

/-- The life that ends at `now`. -/
abbrev upTo (now : Nat) : Life := (Expiration.instant now : Life)

theorem upTo_mono {s t : Nat} (h : s ≤ t) : upTo s ≤ upTo t :=
  WithBot.coe_le_coe.2 (Expiration.instant_le_instant.2 h)

/-- Two lives that agree after `now` agree on everything that is still valid. -/
theorem eq_of_sup_eq {x y : Life} {now : Nat} (h : x ⊔ upTo now = y ⊔ upTo now)
    (hy : upTo now < y) : x = y := by
  rcases le_total x (upTo now) with hx | hx
  · rw [sup_eq_right.2 hx, sup_eq_left.2 hy.le] at h
    exact absurd h hy.ne
  · rwa [sup_eq_left.2 hx, sup_eq_left.2 hy.le] at h

theorem lt_iff_of_sup_eq {x y : Life} {now : Nat} (h : x ⊔ upTo now = y ⊔ upTo now) {z : Life}
    (hz : upTo now < z) : x < z ↔ y < z := by
  have hx : x < z ↔ x ⊔ upTo now < z := by simp [hz]
  have hy : y < z ↔ y ⊔ upTo now < z := by simp [hz]
  rw [hx, hy, h]

/-- Agreement lasts: lives that agree from one life on agree from any longer one on. -/
theorem sup_eq_of_le {x y τ τ' : Life} (h : x ⊔ τ = y ⊔ τ) (hle : τ ≤ τ') : x ⊔ τ' = y ⊔ τ' := by
  rw [← sup_eq_right.2 hle, ← sup_assoc, h, sup_assoc]

end Life

end StandingQuery
