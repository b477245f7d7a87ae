import StandingQuery.Error
import StandingQuery.Lifetime
import StandingQuery.Index.Buckets

/-! Expirations: what is due, and when.

The book of everything with a finite lifetime, kept both ways: by instant, to find
what is due, and by entry, to move or strike one out. What never expires is not
written down. Entries that fall due together come out queries first, each kind in
the order of its ids. -/
namespace StandingQuery
open Std

/-- The number of a stored partial solution. -/
abbrev SolutionId := Nat

/-- Something with a lifetime. -/
inductive Mortal where
  | query (id : QueryId)
  | solution (id : SolutionId)
deriving DecidableEq, Inhabited

namespace Mortal

/-- Queries come before solutions. -/
def rank : Mortal → Nat
  | .query _ => 0
  | .solution _ => 1

def number : Mortal → Nat
  | .query id => id
  | .solution id => id

instance : Ord Mortal := ⟨compareLex (compareOn rank) (compareOn number)⟩
instance : TransOrd Mortal := inferInstanceAs (TransCmp (compareLex _ _))

theorem eq_of_rank_of_number : ∀ {a b : Mortal}, a.rank = b.rank → a.number = b.number → a = b
  | .query _, .query _, _, h => congrArg query h
  | .solution _, .solution _, _, h => congrArg solution h

instance : LawfulEqOrd Mortal :=
  lawfulEqCmp_compareLex fun hr hn => eq_of_rank_of_number hr (eq_of_compareOn_eq hn)

end Mortal

structure Expirations where
  byTime : Buckets Nat Mortal := ∅
  byEntry : ExtTreeMap Mortal Nat := ∅
deriving DecidableEq, Inhabited

namespace Expirations

def empty : Expirations := {}

/-- The instant written down for an entry. -/
def find? (x : Expirations) (e : Mortal) : Option Nat := x.byEntry[e]?

def size (x : Expirations) : Nat := x.byEntry.size

def isEmpty (x : Expirations) : Bool := x.byEntry.isEmpty

/-- Strikes out an entry. -/
def untrack (x : Expirations) (e : Mortal) : Expirations :=
  match x.byEntry[e]? with
  | some t => { byTime := x.byTime.discard t e, byEntry := x.byEntry.erase e }
  | none => x

/-- Writes down an entry's expiration in place of any earlier one. -/
def track (x : Expirations) (e : Mortal) (expiration : Expiration) : Expirations :=
  let x := x.untrack e
  match expiration with
  | .instant t => { byTime := x.byTime.add t e, byEntry := x.byEntry.insert e t }
  | .never => x

/-- Writes down an entry's expiration and tells whether there was an earlier one. -/
def renew (x : Expirations) (e : Mortal) (expiration : Expiration) : Bool × Expirations :=
  (x.byEntry.contains e, x.track e expiration)

/-- What is filed up to `now`, and what is filed from the next instant on. At the last instant
there is none to split at, and nothing is left. -/
def splitAfter (x : Expirations) (now : Nat) : Buckets Nat Mortal × Buckets Nat Mortal :=
  match nextInstant? now with
  | some bound => (x.byTime.filter fun t _ => t < bound, x.byTime.filter fun t _ => bound ≤ t)
  | none => (x.byTime, ∅)

/-- The entries that are due at `now`, oldest first. -/
def due (x : Expirations) (now : Nat) : List Mortal :=
  (x.splitAfter now).1.toList.flatMap fun (_, entries) => entries.toList

/-- Takes out everything that is due at `now`. -/
def removeExpired (x : Expirations) (now : Nat) : List Mortal × Expirations :=
  (x.due now,
    { byTime := (x.splitAfter now).2
      byEntry := (x.due now).foldl (·.erase ·) x.byEntry })

end Expirations

end StandingQuery
