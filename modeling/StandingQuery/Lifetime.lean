/-! Lifetimes.

Queries, tuples and everything derived from them live until an `Expiration`: an
instant in milliseconds, or never. Instants come before `never`, so the minimum
over what a solution was joined from is the moment it stops being valid. A time to
live is given in seconds, and zero stands for no limit. Arithmetic on instants stops
at `latest`: a lifetime too long to count ends there. -/
namespace StandingQuery

/-- The last instant there is. -/
def latest : Nat := UInt64.size - 1

/-- The instant after another one. -/
def nextInstant? (t : Nat) : Option Nat := if t < latest then some (t + 1) else none

/-- When something stops being valid. -/
inductive Expiration where
  | instant (millis : Nat)
  | never
deriving DecidableEq, Inhabited

namespace Expiration

protected def Lt : Expiration → Expiration → Prop
  | .instant s, .instant t => s < t
  | .instant _, .never => True
  | .never, _ => False

instance : LT Expiration := ⟨Expiration.Lt⟩

instance : DecidableRel (α := Expiration) (· < ·)
  | .instant s, .instant t => inferInstanceAs (Decidable (s < t))
  | .instant _, .never => isTrue trivial
  | .never, .instant _ => isFalse id
  | .never, .never => isFalse id

instance : LE Expiration := ⟨fun a b => ¬ b < a⟩
instance : DecidableRel (α := Expiration) (· ≤ ·) := fun a b => inferInstanceAs (Decidable (¬ b < a))

instance : Min Expiration := ⟨fun a b => if b < a then b else a⟩

@[simp] theorem instant_lt_instant {s t : Nat} : instant s < instant t ↔ s < t := Iff.rfl
@[simp] theorem instant_lt_never {s : Nat} : instant s < never := trivial
@[simp] theorem not_never_lt {e : Expiration} : ¬ never < e := by cases e <;> exact id

/-- The end of a life of `ttl` seconds that starts at `now`. -/
def ofTtl (now ttl : Nat) : Expiration :=
  if ttl = 0 then .never else .instant (min (now + ttl * 1000) latest)

/-- Nothing is valid any more at the instant of its expiration. -/
def expiredAt (now : Nat) : Expiration → Bool
  | .instant t => t ≤ now
  | .never => false

/-- The instant, if there is one. -/
def millis? : Expiration → Option Nat
  | .instant t => some t
  | .never => none

/-- No instant stands for no end. -/
def ofMillis? : Option Nat → Expiration
  | some t => .instant t
  | none => .never

end Expiration

/-- A clock that is moved by hand. -/
structure Clock where
  now : Nat
deriving DecidableEq, Inhabited

namespace Clock

/-- Moves on by `n`. Beyond the last instant it starts again. -/
def advanceMillis (c : Clock) (n : Nat) : Clock := ⟨(c.now + n) % UInt64.size⟩

def advanceSecs (c : Clock) (n : Nat) : Clock := c.advanceMillis (n * 1000)

/-- Moves on to `n`. An instant that has passed is ignored. -/
def moveTo (c : Clock) (n : Nat) : Clock := ⟨max c.now n⟩

end Clock

end StandingQuery
