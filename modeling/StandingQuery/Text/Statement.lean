import StandingQuery.Error
import StandingQuery.Text.CharClass

/-! Lines of data.

A line holds one statement: three or four terms and a dot. Subjects and graphs are
IRIs or blank nodes, predicates are IRIs, objects may be literals too. Terms are kept
as they are written, so that they equal the constants of queries. Lines that are
blank or hold a comment have no statement. -/
namespace StandingQuery.Text

/-- A term at the front of a text, and what is left. -/
abbrev TermReader := List Char → Except BadStatement (Term × List Char)

/-- Takes the first `n` characters as a term. -/
def takeTerm (n : Nat) (s : List Char) : Term × List Char := (⟨.ofList (s.take n)⟩, s.drop n)

/-- Reads an IRI with its angle brackets. -/
def readIri (role : String) : TermReader := fun s =>
  match trimStart s with
  | '<' :: s =>
    let body := s.takeWhile (· ≠ '>')
    if body.length = s.length then .error (.unclosedIri role)
    else
      let iri := '<' :: body ++ ['>']
      if body.any isBlank then .error (.whitespaceInIri role (.ofList iri))
      else .ok (⟨.ofList iri⟩, s.drop (body.length + 1))
  | s => .error (.expectedIri role (.ofList s))

/-- Reads a blank node, whose label ends with the next white space. -/
def readBlankNode : TermReader := fun s =>
  let label := s.takeWhile (!isBlank ·)
  if label.length ≤ 2 then .error .emptyLabel else .ok (takeTerm label.length s)

/-- Reads an IRI or a blank node. -/
def readNode (role : String) : TermReader := fun s =>
  match trimStart s with
  | '_' :: ':' :: s => readBlankNode ('_' :: ':' :: s)
  | s => readIri role s

/-- The length of a quoted body with its closing quote. `escaped` says that the next
character stands behind a backslash and means nothing. -/
def bodyLength? (escaped : Bool) : List Char → Option Nat
  | [] => none
  | c :: s =>
    if escaped then (bodyLength? false s).map (· + 1)
    else if c = '\\' then (bodyLength? true s).map (· + 1)
    else if c = '"' then some 1
    else (bodyLength? false s).map (· + 1)

/-- The length of what belongs to a literal behind its closing quote. -/
def suffixLength : List Char → Except BadStatement Nat
  | '^' :: '^' :: s =>
    match s with
    | '<' :: _ => (readIri "datatype" s).map fun (t, _) => 2 + t.text.length
    | _ => .error (.datatype (.ofList s))
  | '@' :: s =>
    match (s.takeWhile fun c => c.isAlphanum || c == '-').length with
    | 0 => .error .emptyLanguageTag
    | n => .ok (1 + n)
  | _ => .ok 0

/-- Reads a literal with its language tag or datatype. -/
def readLiteral : TermReader := fun s =>
  match bodyLength? false s.tail with
  | none => .error .unclosedLiteral
  | some n => (suffixLength (s.drop (n + 1))).map fun m => takeTerm (n + 1 + m) s

def readObject : TermReader := fun s =>
  match trimStart s with
  | '<' :: s => readIri "object" ('<' :: s)
  | '_' :: ':' :: s => readBlankNode ('_' :: ':' :: s)
  | '"' :: s => readLiteral ('"' :: s)
  | s => .error (.object (.ofList s))

/-- Reads the terms of a statement without its dot. -/
def readTerms (s : List Char) : Except BadStatement Tuple := do
  let (subject, s) ← readNode "subject" s
  let (predicate, s) ← readIri "predicate" s
  let (object, s) ← readObject s
  match trim s with
  | [] => return ⟨[subject, predicate, object]⟩
  | s =>
    let (graph, s) ← readNode "subject" s
    match trim s with
    | [] => return ⟨[subject, predicate, object, graph]⟩
    | s => throw (.trailing (.ofList s))

/-- The statement on a line, if there is one. -/
def readStatement (line : List Char) : Except BadStatement (Option Tuple) :=
  match trim line with
  | [] => .ok none
  | '#' :: _ => .ok none
  | s =>
    if s.getLast? = some '.' then (readTerms (trimEnd s.dropLast)).map some
    else .error (.noDot (.ofList s))

end StandingQuery.Text

namespace StandingQuery

/-- The tuple on a line of data, if there is one. -/
def Tuple.ofLine? (line : String) : Except Error (Option Tuple) :=
  (Text.readStatement line.toList).mapError .parse

end StandingQuery
