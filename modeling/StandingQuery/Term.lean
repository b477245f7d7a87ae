import StandingQuery.Order

/-! Terms, variables and tuples.

A stream is a sequence of tuples of terms; a query names the terms it does not
fix by variables. Terms are opaque: the library compares them and nothing else.
Variables are ordered by their names, code point by code point, and that order is
the order of every list of variables an answer shows. -/
namespace StandingQuery
open Std

/-- An atomic value of the stream, e.g. an IRI with its angle brackets. -/
structure Term where
  text : String
deriving DecidableEq, Inhabited

namespace Term

instance : ToString Term := ⟨Term.text⟩
instance : Ord Term := ⟨compareOn Term.text⟩
instance : TransOrd Term := inferInstanceAs (TransCmp (compareOn Term.text))
instance : LawfulEqOrd Term :=
  lawfulEqCmp_compareOn fun {a b} h => by cases a; cases b; cases h; rfl

end Term

/-- A name that a query binds to terms. -/
structure Variable where
  name : String
deriving DecidableEq, Inhabited

namespace Variable

/-- The characters that mark a variable in a query text. -/
def isSigil (c : Char) : Bool := c == '?' || c == '$'

/-- The variable a spelling stands for: all sigils in front of the name are dropped. -/
def ofSpelling (s : String) : Variable := ⟨.ofList (s.toList.dropWhile isSigil)⟩

instance : ToString Variable := ⟨fun v => "?" ++ v.name⟩
instance : Ord Variable := ⟨compareOn Variable.name⟩
instance : TransOrd Variable := inferInstanceAs (TransCmp (compareOn Variable.name))
instance : LawfulEqOrd Variable :=
  lawfulEqCmp_compareOn fun {a b} h => by cases a; cases b; cases h; rfl

/-- `a` comes before `b` in the order of names. -/
def precedes (a b : Variable) : Bool := compare a b == .lt

end Variable

/-- A fact of the stream, e.g. subject, predicate and object. -/
structure Tuple where
  terms : List Term
deriving DecidableEq, Inhabited

namespace Tuple

def arity (t : Tuple) : Nat := t.terms.length

/-- Terms separated by one space, and a final dot: a line of data. -/
instance : ToString Tuple := ⟨fun t => " ".intercalate (t.terms.map Term.text) ++ " ."⟩

end Tuple

end StandingQuery
