import StandingQuery.Error

/-! The pattern index: which patterns a tuple could match.

Patterns are filed by their *signature*: the arity, the mask of the constant places
and the constants in them. A tuple is looked up once for every mask in use at its
arity, so the work does not grow with the number of queries. The masks in use are
counted, to know when the last pattern with a mask has gone. -/
namespace StandingQuery
open Std

structure Signature where
  arity : Nat
  mask : Nat
  constants : List Term
deriving DecidableEq, Inhabited

namespace Signature

def ofPattern (p : TuplePattern) : Signature := ⟨p.arity, p.constantMask, p.constants⟩

/-- The members of a list whose places are set in a mask. -/
def select (mask : Nat) : List α → List α
  | [] => []
  | x :: rest => if mask % 2 = 1 then x :: select (mask / 2) rest else select (mask / 2) rest

/-- The signature of the patterns with constants in the places of `mask` that admit a tuple. -/
def ofTuple (t : Tuple) (mask : Nat) : Signature := ⟨t.arity, mask, select mask t.terms⟩

instance : Ord Signature :=
  ⟨compareLex (compareOn arity) (compareLex (compareOn mask) (compareOn constants))⟩
instance : TransOrd Signature := inferInstanceAs (TransCmp (compareLex _ _))
instance : LawfulEqOrd Signature :=
  lawfulEqCmp_compareLex fun {a b} ha h => by
    obtain ⟨hm, hc⟩ := compareLex_eq_eq.1 h
    cases a; cases b; cases ha
    cases eq_of_compareOn_eq hm
    cases eq_of_compareOn_eq hc
    rfl

end Signature

/-- One pattern of one registered query. -/
structure PatternRef where
  query : QueryId
  pattern : Nat
deriving DecidableEq, Inhabited

structure PatternIndex where
  /-- The patterns of each signature in the order of their insertion. -/
  entries : ExtTreeMap Signature (List PatternRef) := ∅
  /-- By arity and mask, the number of patterns filed. -/
  masks : ExtTreeMap Nat (ExtTreeMap Nat Nat) := ∅
deriving DecidableEq, Inhabited

namespace PatternIndex

def empty : PatternIndex := {}

/-- The patterns with a signature. -/
def find (x : PatternIndex) (s : Signature) : List PatternRef := x.entries[s]?.getD []

/-- How often each mask is used at an arity. -/
def masksOf (x : PatternIndex) (arity : Nat) : ExtTreeMap Nat Nat := x.masks[arity]?.getD ∅

def insert (x : PatternIndex) (query : QueryId) (i : Nat) (p : TuplePattern) : PatternIndex :=
  let s := Signature.ofPattern p
  let masks := x.masksOf s.arity
  { entries := x.entries.insert s (x.find s ++ [⟨query, i⟩])
    masks := x.masks.insert s.arity (masks.insert s.mask (masks.getD s.mask 0 + 1)) }

/-- Files all patterns of a query. -/
def insertQuery (x : PatternIndex) (query : QueryId) (g : GraphPattern) : PatternIndex :=
  g.zipIdx.foldl (fun x (p, i) => x.insert query i p) x

/-- `count` patterns with the mask are gone. -/
def releaseMask (masks : ExtTreeMap Nat (ExtTreeMap Nat Nat)) (arity mask count : Nat) :
    ExtTreeMap Nat (ExtTreeMap Nat Nat) :=
  match masks[arity]? with
  | none => masks
  | some uses =>
    let left := uses.getD mask 0 - count
    let uses := if left = 0 then uses.erase mask else uses.insert mask left
    if uses.isEmpty then masks.erase arity else masks.insert arity uses

/-- Takes out what a query has filed under the signature of `p`. -/
def removePattern (x : PatternIndex) (query : QueryId) (p : TuplePattern) : PatternIndex :=
  let s := Signature.ofPattern p
  match x.entries[s]? with
  | none => x
  | some refs =>
    let kept := refs.filter (·.query ≠ query)
    let entries := if kept.isEmpty then x.entries.erase s else x.entries.insert s kept
    if kept.length = refs.length then { x with entries }
    else { entries, masks := releaseMask x.masks s.arity s.mask (refs.length - kept.length) }

/-- Takes out a query, given the patterns it was filed with. -/
def removeQuery (x : PatternIndex) (query : QueryId) (g : GraphPattern) : PatternIndex :=
  g.foldl (fun x p => x.removePattern query p) x

/-- The patterns that fit a tuple in arity and constants. Whether repeated variables
meet equal terms is left to matching. -/
def lookup (x : PatternIndex) (t : Tuple) : List PatternRef :=
  (x.masksOf t.arity).keys.flatMap fun mask => x.find (.ofTuple t mask)

def size (x : PatternIndex) : Nat :=
  x.entries.toList.foldl (fun n (_, refs) => n + refs.length) 0

def isEmpty (x : PatternIndex) : Bool := x.entries.isEmpty

end PatternIndex

end StandingQuery
