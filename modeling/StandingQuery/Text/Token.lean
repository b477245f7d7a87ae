import StandingQuery.Error
import StandingQuery.Text.CharClass

/-! The tokens of a query text.

A text is read from left to right. Where a token or a comment begins, the longest
text of its kind is taken; a character with which nothing begins belongs to the gap
in front of the next token. Gaps may hold white space only. What follows a literal's
closing quote, a language tag or a datatype, belongs to the literal. -/
namespace StandingQuery.Text

/-- What a token is. -/
inductive TokenKind where
  | iri
  | literal
  | number
  | variable
  | punct
  | word
deriving DecidableEq

structure Token where
  kind : TokenKind
  text : String
deriving DecidableEq

namespace Token

def isPunct (t : Token) (punct : String) : Bool := t.kind == .punct && t.text == punct

/-- The keyword a word stands for, in capitals. Words with a colon are names. -/
def keyword? (t : Token) : Option String :=
  if t.kind = .word ∧ !t.text.toList.contains ':' then
    some (.ofList (t.text.toList.map Char.toUpper))
  else none

def isKeyword (t : Token) (keyword : String) : Bool := t.keyword? == some keyword

end Token

/-! ### Lexemes

Each recogniser gives the text that it takes from the front of its input. -/

/-- A piece that may be there, taken from the front. -/
abbrev Recogniser := List Char → Option (List Char)

/-- The longest run of characters of a class, if it is not empty. -/
def run (p : Char → Bool) : Recogniser := fun s =>
  match s.takeWhile p with
  | [] => none
  | taken => some taken

/-- One character of the first class, then as many as there are of the second. -/
def name (first later : Char → Bool) : Recogniser
  | c :: s => if first c then some (c :: s.takeWhile later) else none
  | [] => none

/-- A body of characters of a class between angle brackets. -/
def bracketed (inside : Char → Bool) : Recogniser
  | '<' :: s =>
    match s.dropWhile inside with
    | '>' :: _ => some ('<' :: s.takeWhile inside ++ ['>'])
    | _ => none
  | _ => none

def comment : Recogniser
  | '#' :: s => some ('#' :: s.takeWhile (· ≠ '\n'))
  | _ => none

def isIriChar (c : Char) : Bool :=
  !(['<', '>', '"', '\x7b', '\x7d', '|', '^', '`', '\\'].contains c || isBlank c)

def iri : Recogniser := bracketed isIriChar

/-- What follows an opening quote, up to the closing one. A backslash takes the next
character along; neither may be a line break. -/
def quotedBody : Recogniser
  | '"' :: _ => some ['"']
  | '\\' :: c :: s => if c = '\n' then none else (quotedBody s).map (['\\', c] ++ ·)
  | c :: s => if c = '\n' ∨ c = '\\' then none else (quotedBody s).map (c :: ·)
  | [] => none

def isNameChar (c : Char) : Bool := isWord c || c == '-'

/-- A prefixed name: a prefix, which may be empty, a colon and a local name. -/
def prefixed : Recogniser := fun s =>
  let front := (name isLetter isNameChar s).getD []
  match s.drop front.length with
  | ':' :: rest => some (front ++ ':' :: rest.takeWhile isNameChar)
  | _ => none

/-- The subtags of a language tag: hyphens, each followed by letters or digits. -/
def subtags (inside : Bool) : List Char → List Char
  | '-' :: c :: s => if isLetterOrDigit c then '-' :: c :: subtags true s else []
  | c :: s => if inside && isLetterOrDigit c then c :: subtags inside s else []
  | [] => []

/-- The tag or datatype behind the closing quote; empty if there is none. -/
def literalSuffix : List Char → List Char
  | '^' :: '^' :: s =>
    match bracketed (fun c => !(c == '<' || c == '>' || isBlank c)) s <|> prefixed s with
    | some datatype => '^' :: '^' :: datatype
    | none => []
  | '@' :: s =>
    match run isLetter s with
    | some language => '@' :: language ++ subtags false (s.drop language.length)
    | none => []
  | _ => []

def literal : Recogniser
  | '"' :: s => (quotedBody s).map fun body => '"' :: body ++ literalSuffix (s.drop body.length)
  | _ => none

/-- The fraction of a number: a point and at least one digit. -/
def fraction : List Char → List Char
  | '.' :: s => ((run isDigit s).map ('.' :: ·)).getD []
  | _ => []

def unsigned : Recogniser := fun s =>
  (run isDigit s).map fun digits => digits ++ fraction (s.drop digits.length)

def number : Recogniser
  | '+' :: s => (unsigned s).map ('+' :: ·)
  | '-' :: s => (unsigned s).map ('-' :: ·)
  | s => unsigned s

def isNameStart (c : Char) : Bool := isLetter c || c == '_'

def variableName : Recogniser
  | c :: s =>
    if Variable.isSigil c then
      (name isNameStart (fun c => isLetterOrDigit c || c == '_') s).map (c :: ·)
    else none
  | [] => none

def punct : Recogniser
  | '!' :: '=' :: _ => some ['!', '=']
  | '<' :: '=' :: _ => some ['<', '=']
  | '>' :: '=' :: _ => some ['>', '=']
  | '&' :: '&' :: _ => some ['&', '&']
  | '|' :: '|' :: _ => some ['|', '|']
  | c :: _ => if "\x7b\x7d()[].;,*=/|^+<>!?".toList.contains c then some [c] else none
  | [] => none

def word : Recogniser :=
  name (fun c => isNameStart c || c == ':') fun c => isNameChar c || c == ':'

/-- What begins at the front of the text: a comment, which is no token, or a token.
Where several kinds fit, the first in this order is meant. -/
def lexeme? (s : List Char) : Option (Option TokenKind × List Char) :=
  ((comment s).map (none, ·)) <|>
  ((iri s).map (some .iri, ·)) <|>
  ((literal s).map (some .literal, ·)) <|>
  ((number s).map (some .number, ·)) <|>
  ((variableName s).map (some .variable, ·)) <|>
  ((punct s).map (some .punct, ·)) <|>
  ((word s).map (some .word, ·))

/-! ### Whole texts -/

/-- Refuses a gap with anything but white space in it. -/
def checkGap (gap : List Char) : Except Error Unit :=
  match trim gap with
  | [] => .ok ()
  | found => .error (.invalidQuery (.unexpectedInput (.ofList found)))

/-- The tokens of a text. The next `skip` characters belong to a lexeme that has been
taken, and `gap` holds the characters since the last one. -/
def scan : (skip : Nat) → (gap : List Char) → List Char → Except Error (List Token)
  | _, gap, [] => do
    checkGap gap
    return []
  | skip + 1, gap, _ :: s => scan skip gap s
  | 0, gap, c :: s =>
    match lexeme? (c :: s) with
    | none => scan 0 (gap ++ [c]) s
    | some (kind, text) => do
      checkGap gap
      let tokens ← scan (text.length - 1) [] s
      match kind with
      | none => return tokens
      | some kind => return ⟨kind, .ofList text⟩ :: tokens

def tokenise (text : String) : Except Error (List Token) := scan 0 [] text.toList

end StandingQuery.Text
