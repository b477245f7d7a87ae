import StandingQuery.Query
import StandingQuery.Text.Token

/-! The query language.

A query text declares prefixes, says in which form its solutions are wanted, gives
one group of triples and filters, and may end with a limit and an offset. What the
language knows but this library does not offer is refused as unsupported, anything
else as malformed.

A group is read token by token. What has been read of an unfinished triple or filter
is the state of the reading: subjects are shared after `;`, subjects and predicates
after `,`. Blank nodes stand for variables that `SELECT *` leaves out. -/
namespace StandingQuery.Text
open Std

/-- Namespaces by prefix. -/
abbrev Prefixes := ExtTreeMap String String

/-- The keywords of algebra that is not offered. -/
def unsupportedKeywords : List String :=
  ["OPTIONAL", "UNION", "MINUS", "GRAPH", "SERVICE", "EXISTS", "NOT", "BIND", "VALUES", "SELECT",
    "FROM", "ORDER", "GROUP", "HAVING", "BASE"]

/-- The unsupported keyword a token stands for. -/
def Token.unsupported? (t : Token) : Option String :=
  t.keyword?.filter unsupportedKeywords.contains

def Token.isOneOf (t : Token) (puncts : List String) : Bool :=
  t.kind == .punct && puncts.contains t.text

/-! ### Terms -/

def rdfType : Term := ⟨"<http://www.w3.org/1999/02/22-rdf-syntax-ns#type>"⟩

/-- A literal of one of the standard datatypes. -/
def typed (lexical datatype : String) : Term :=
  ⟨"\"" ++ lexical ++ "\"^^<http://www.w3.org/2001/XMLSchema#" ++ datatype ++ ">"⟩

/-- The datatype of a number is told from its point. -/
def numberTerm (s : String) : Term :=
  typed s (if s.toList.contains '.' then "decimal" else "integer")

/-- Splits at the first colon. -/
def splitColon (s : List Char) : Option (List Char × List Char) :=
  match s.dropWhile (· ≠ ':') with
  | _ :: after => some (s.takeWhile (· ≠ ':'), after)
  | [] => none

/-- The IRI that a prefixed name abbreviates. -/
def expandPrefixed (prefixes : Prefixes) (s : List Char) : Except Error String :=
  match splitColon s with
  | none => .error (.invalidQuery (.notPrefixed (.ofList s)))
  | some (front, after) =>
    match prefixes[String.ofList front]? with
    | none => .error (.invalidQuery (.undeclaredPrefix (.ofList front)))
    | some iri => .ok ("<" ++ iri ++ .ofList after ++ ">")

/-- Splits a reversed text at its first two carets, and turns both sides round. -/
def splitCarets (after : List Char) : List Char → Option (List Char × List Char)
  | '^' :: '^' :: before => some (before.reverse, after)
  | c :: before => splitCarets (c :: after) before
  | [] => none

/-- The term of a literal: as written, but for a prefixed datatype, which is expanded.
The datatype is what follows the last two carets. -/
def expandLiteral (prefixes : Prefixes) (s : String) : Except Error Term :=
  match splitCarets [] s.toList.reverse with
  | some (lexical, datatype) =>
    if datatype.head? = some '<' then .ok ⟨s⟩
    else (expandPrefixed prefixes datatype).map fun iri => ⟨.ofList lexical ++ "^^" ++ iri⟩
  | none => .ok ⟨s⟩

/-- A blank node: a name that is local to the query. -/
def isBlankNode (s : String) : Bool := "_:".toList.isPrefixOf s.toList

/-- The slot that a token stands for. -/
def slot (prefixes : Prefixes) (t : Token) : Except Error Slot :=
  match t.kind with
  | .variable => .ok (.var (.ofSpelling t.text))
  | .iri => .ok (.const ⟨t.text⟩)
  | .literal => (expandLiteral prefixes t.text).map .const
  | .number => .ok (.const (numberTerm t.text))
  | .word =>
    if isBlankNode t.text then .ok (.var (.ofSpelling t.text))
    else if t.text = "true" ∨ t.text = "false" then .ok (.const (typed t.text "boolean"))
    else if t.text.toList.contains ':' then
      (expandPrefixed prefixes t.text.toList).map fun iri => .const ⟨iri⟩
    else .error (.invalidQuery (.unexpected t.text))
  | .punct =>
    if t.text = "[" ∨ t.text = "(" then .error (.incompatibleQuery .blankNodeList)
    else .error (.invalidQuery (.unexpected t.text))

/-- The slot of a token in predicate position, given the token behind it. -/
def predicate (prefixes : Prefixes) (t : Token) (next : Option Token) : Except Error Slot := do
  if t.isOneOf ["^", "!", "("] then throw (.incompatibleQuery .propertyPath)
  if t.kind = .literal ∨ t.kind = .number then throw (.invalidQuery (.literalPredicate t.text))
  let p ← if t.isKeyword "A" then pure (.const rdfType) else slot prefixes t
  if next.any (·.isOneOf ["/", "|", "^", "+", "*", "?"]) then
    throw (.incompatibleQuery .propertyPath)
  return p

/-! ### Groups -/

/-- One side of a comparison, given the token behind it. -/
def operand (prefixes : Prefixes) (t : Token) (next : Option Token) : Except Error Slot :=
  if (t.kind == .word && next.any (·.isPunct "(")) || t.isPunct "!" || t.isPunct "(" then
    .error (.incompatibleQuery (.filterExpression t.text))
  else slot prefixes t

/-- The relation a token stands for. -/
def relation (t : Token) : Except Error Relation :=
  if t.isPunct "=" then .ok .equal
  else if t.isPunct "!=" then .ok .notEqual
  else if t.kind = .punct ∧ t.text ≠ ")" then .error (.incompatibleQuery (.filterOperator t.text))
  else .error (.invalidQuery (.comparison t.text))

/-- The patterns and comparisons of a group in the order in which they stand there. -/
structure Group where
  patterns : List TuplePattern := []
  comparisons : List Comparison := []
deriving DecidableEq

/-- What has been read of an unfinished triple or filter. -/
inductive Reading where
  /-- Nothing: a triple, a filter or the end of the group may follow. -/
  | items
  | predicate (subject : Slot)
  | object (subject predicate : Slot)
  /-- A whole triple, which a separator or the end of its block follows. -/
  | separator (subject predicate : Slot)
  /-- A semicolon, which may be the last thing in a block. -/
  | continuation (subject : Slot)
  | filter
  | left
  | relation (left : Slot)
  | right (left : Slot) (relation : Relation)
  | close (comparison : Comparison)

/-- What is wrong with a group that ends inside a reading. -/
def Reading.atEnd : Reading → Error
  | items | separator .. | continuation _ => .invalidQuery .unterminatedGroup
  | predicate _ => .invalidQuery (.endOfQuery "a predicate")
  | object .. => .invalidQuery (.endOfQuery "a term")
  | filter => .incompatibleQuery (.filterStart "end of query")
  | left | right .. => .invalidQuery .endInsideFilter
  | relation _ => .invalidQuery (.endOfQuery "`=` or `!=`")
  | close _ => .invalidQuery (.endOfQuery "`)`")

/-- Where one token takes the reading of a group. -/
inductive Advance where
  | reading (r : Reading) (g : Group)
  | ended

/-- Reads one token of a group between triples and filters. -/
def readItem (prefixes : Prefixes) (g : Group) (t : Token) : Except Error Advance :=
  if t.isPunct "\x7d" then .ok .ended
  else if t.isPunct "." then .ok (.reading .items g)
  else if t.isPunct "\x7b" then .error (.incompatibleQuery .nestedGroup)
  else if t.isKeyword "FILTER" then .ok (.reading .filter g)
  else
    match t.unsupported? with
    | some keyword => .error (.incompatibleQuery (.keyword keyword))
    | none => (slot prefixes t).map fun s => .reading (.predicate s) g

/-- Reads one token of a group, given the token behind it. -/
def readToken (prefixes : Prefixes) (g : Group) (t : Token) (next : Option Token) :
    Reading → Except Error Advance
  | .items => readItem prefixes g t
  | .predicate s => (predicate prefixes t next).map fun p => .reading (.object s p) g
  | .object s p =>
    (slot prefixes t).map fun o =>
      .reading (.separator s p) { g with patterns := g.patterns ++ [⟨[s, p, o]⟩] }
  | .separator s p =>
    if t.isPunct "," then .ok (.reading (.object s p) g)
    else if t.isPunct ";" then .ok (.reading (.continuation s) g)
    else if t.isOneOf [".", "\x7d"] || t.isKeyword "FILTER" || t.unsupported?.isSome then
      readItem prefixes g t
    else .error (.invalidQuery (.afterTriple t.text))
  | .continuation s =>
    if t.isOneOf [".", "\x7d"] then readItem prefixes g t
    else (predicate prefixes t next).map fun p => .reading (.object s p) g
  | .filter =>
    if t.isPunct "(" then .ok (.reading .left g)
    else .error (.incompatibleQuery (.filterStart t.text))
  | .left => (operand prefixes t next).map fun l => .reading (.relation l) g
  | .relation l => (relation t).map fun r => .reading (.right l r) g
  | .right l r => (operand prefixes t next).map fun o => .reading (.close ⟨l, r, o⟩) g
  | .close c =>
    if t.isPunct ")" then .ok (.reading .items { g with comparisons := g.comparisons ++ [c] })
    else if t.isOneOf ["&&", "||"] then .error (.incompatibleQuery .compoundFilter)
    else .error (.invalidQuery (.filterEnd t.text))

/-- Reads a group up to its closing brace and gives what is left. -/
def readItems (prefixes : Prefixes) (r : Reading) (g : Group) :
    List Token → Except Error (Group × List Token)
  | [] => .error r.atEnd
  | t :: rest => do
    match ← readToken prefixes g t rest.head? r with
    | .ended => return (g, rest)
    | .reading r g => readItems prefixes r g rest

/-- Reads a group with its braces. -/
def readGroup (prefixes : Prefixes) : List Token → Except Error (Group × List Token)
  | [] => .error (.invalidQuery (.endOfQuery (quoted "\x7b")))
  | t :: rest =>
    if t.isPunct "\x7b" then readItems prefixes .items {} rest
    else .error (.invalidQuery (.expectedPunct "\x7b" t.text))

/-! ### Whole queries -/

/-- The shape in which a query wants its solutions. No variables stand for all of them. -/
inductive Form where
  | select (distinctness : Distinctness) (vars : Option (List Variable))
  | ask
  | construct (template : List TuplePattern)
deriving DecidableEq

/-- A name that can be declared as a prefix: its only colon comes last. -/
def prefixName? (t : Token) : Option String :=
  match t.kind, t.text.toList.reverse with
  | .word, ':' :: front => if front.contains ':' then none else some (.ofList front.reverse)
  | _, _ => none

/-- Reads the prefix declarations. -/
def readPrologue (prefixes : Prefixes) : List Token → Except Error (Prefixes × List Token)
  | [] => .ok (prefixes, [])
  | t :: rest =>
    if !t.isKeyword "PREFIX" then .ok (prefixes, t :: rest)
    else
      match rest with
      | [] => .error (.invalidQuery (.endOfQuery "a prefix name"))
      | n :: rest =>
        match prefixName? n with
        | none => .error (.invalidQuery (.prefixName n.text))
        | some front =>
          match rest with
          | [] => .error (.invalidQuery (.endOfQuery "a namespace IRI"))
          | i :: rest =>
            if i.kind = .iri then
              readPrologue (prefixes.insert front (.ofList (i.text.toList.drop 1).dropLast)) rest
            else .error (.invalidQuery (.namespaceIri i.text))

/-- Reads what is selected. -/
def readSelection (distinctness : Distinctness) (tokens : List Token) : Except Error (Form × List Token) :=
  match tokens.head?.map (·.isPunct "*") with
  | some true => .ok (.select distinctness none, tokens.tail)
  | _ =>
    let vars := tokens.takeWhile (·.kind == .variable)
    let rest := tokens.dropWhile (·.kind == .variable)
    if rest.head?.any (·.isPunct "(") then .error (.incompatibleQuery .selectExpression)
    else if vars.isEmpty then .error (.invalidQuery .emptyProjection)
    else .ok (.select distinctness (some (vars.map fun t => .ofSpelling t.text)), rest)

/-- Reads the form of a query. -/
def readForm (prefixes : Prefixes) : List Token → Except Error (Form × List Token)
  | [] => .error (.invalidQuery (.endOfQuery "SELECT, ASK or CONSTRUCT"))
  | t :: rest =>
    match t.keyword? with
    | some "SELECT" =>
      match rest.head?.bind Token.keyword? with
      | some "DISTINCT" => readSelection .distinct rest.tail
      | some "REDUCED" => readSelection .reduced rest.tail
      | _ => readSelection .none rest
    | some "ASK" => .ok (.ask, rest)
    | some "CONSTRUCT" =>
      if !rest.head?.any (·.isPunct "\x7b") then .error (.incompatibleQuery .constructWhere)
      else do
        let (g, rest) ← readGroup prefixes rest
        if !g.comparisons.isEmpty then throw (.invalidQuery .filterInTemplate)
        return (.construct g.patterns, rest)
    | some "DESCRIBE" => .error (.incompatibleQuery .describe)
    | _ => .error (.invalidQuery (.queryForm t.text))

/-- The value of a string of ASCII digits. -/
def decimalValue? (s : List Char) : Option Nat :=
  if s.isEmpty then none
  else s.foldl (fun n c =>
    if c.isDigit then n.map fun n => n * 10 + (c.toNat - '0'.toNat) else none) (some 0)

/-- The count a number stands for: an integer without a minus that a word of the
machine can hold. -/
def count? (t : Token) : Option Nat :=
  if t.kind = .number then
    let digits := match t.text.toList with
      | '+' :: s => s
      | s => s
    (decimalValue? digits).filter (· < UInt64.size)
  else none

/-- The clauses behind the group. A clause that is given twice counts the last time. -/
structure Paging where
  limit : Option Nat := none
  offset : Option Nat := none
deriving DecidableEq

/-- Reads the number of a clause. -/
def readCount (name : String) : List Token → Except Error Nat
  | [] => .error (.invalidQuery (.endOfQuery ("a number after " ++ name)))
  | n :: _ =>
    match count? n with
    | some n => .ok n
    | none => .error (.invalidQuery (.count name n.text))

/-- Reads limits and offsets up to the end of the query. -/
def readPaging (p : Paging) : List Token → Except Error Paging
  | [] => .ok p
  | [t] => do
    match t.keyword? with
    | some "LIMIT" => return { p with limit := some (← readCount "LIMIT" []) }
    | some "OFFSET" => return { p with offset := some (← readCount "OFFSET" []) }
    | _ => throw (after t)
  | t :: n :: rest => do
    match t.keyword? with
    | some "LIMIT" => readPaging { p with limit := some (← readCount "LIMIT" [n]) } rest
    | some "OFFSET" => readPaging { p with offset := some (← readCount "OFFSET" [n]) } rest
    | _ => throw (after t)
where
  /-- What is wrong with a token that is no clause. -/
  after (t : Token) : Error :=
    match t.unsupported? with
    | some keyword => .incompatibleQuery (.keyword keyword)
    | none => .invalidQuery (.afterGroup t.text)

/-- A query as it is written, with its prefixes expanded. -/
structure ParsedQuery where
  form : Form
  group : Group
  paging : Paging := {}
deriving DecidableEq

namespace ParsedQuery

def ofTokens? (tokens : List Token) : Except Error ParsedQuery := do
  let (prefixes, rest) ← readPrologue ∅ tokens
  let (form, rest) ← readForm prefixes rest
  let rest := if rest.head?.any (·.isKeyword "WHERE") then rest.tail else rest
  let (group, rest) ← readGroup prefixes rest
  if group.patterns.isEmpty then throw (.invalidQuery .emptyGroup)
  let paging ← readPaging {} rest
  return { form, group, paging }

def ofText? (text : String) : Except Error ParsedQuery := do
  ofTokens? (← tokenise text)

/-- All variables are delivered unless some of them stand for blank nodes. -/
def allNamed (g : GraphPattern) : Projection :=
  if g.vars.all (!isBlankNode ·.name) then .all
  else .only (g.vars.filter (!isBlankNode ·.name))

/-- The query that is meant. -/
def toQuery (p : ParsedQuery) : Query :=
  { pattern := p.group.patterns
    modifiers :=
      { projection :=
          match p.form with
          | .select _ none => allNamed p.group.patterns
          | .select _ (some vars) => .only vars
          | _ => .all
        distinctness :=
          match p.form with
          | .select d _ => d
          | _ => .none
        ask := p.form == .ask
        construct :=
          match p.form with
          | .construct template => some (.ofPatterns template)
          | _ => none
        limit := p.paging.limit
        offset := p.paging.offset
        filters := p.group.comparisons.map Comparison.holds } }

end ParsedQuery

end StandingQuery.Text

namespace StandingQuery

/-- The query that a text stands for. -/
def Query.ofText? (text : String) : Except Error Query :=
  (Text.ParsedQuery.ofText? text).map Text.ParsedQuery.toQuery

end StandingQuery
