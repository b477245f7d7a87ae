import StandingQuery.Text.Decimal
import StandingQuery.Text.Json.Fault

/-! Reading JSON.

A reader takes a value of one kind from the front of a text, or halts at the first fault:
no leading zeros, no trailing commas, no bare control characters in strings, and
nothing but white space around the value. `record` reads the values of a record from
an object, by name, or from an array, in order; members with other names are passed
over by `skip`, which still holds them to the rules of the format. -/
namespace StandingQuery.Text.Json

/-! ### Readers -/

/-- A fault and the text that was not read before it. -/
structure Halt where
  fault : Fault
  rest : List Char
  /-- How many bytes of the rest the fault takes in. -/
  ahead : Nat

abbrev Reader := StateT (List Char) (Except Halt)

variable {α : Type}

def haltAhead (bytes : Nat) (fault : Fault) : Reader α := fun rest =>
  .error ⟨fault, rest, bytes⟩

/-- Halts at what has been read. -/
def halt (fault : Fault) : Reader α := haltAhead 0 fault

/-- Halts at the next character. -/
def haltNext (fault : Fault) : Reader α := haltAhead 1 fault

def isSpace (c : Char) : Bool := c == ' ' || c == '\n' || c == '\t' || c == '\r'

/-- Passes over white space and looks at the next character. -/
def next? : Reader (Option Char) := do
  let s := (← get).dropWhile isSpace
  set s
  return s.head?

/-- The first character of a value. -/
def next : Reader Char := do
  match ← next? with
  | some c => return c
  | none => haltNext .endInValue

def pass : Reader Unit := modify List.tail

/-- Passes a character if it is the next one. -/
def accept (c : Char) : Reader Bool := do
  if (← get).head? = some c then
    pass
    return true
  else return false

/-- Passes the characters of a word. -/
def word : List Char → Reader Unit
  | [] => return
  | c :: cs => do
    if ← accept c then word cs
    else if (← get).isEmpty then halt .endInValue
    else haltNext .expectedWord

def colon : Reader Unit := do
  match ← next? with
  | some ':' => pass
  | some _ => haltNext .expectedColon
  | none => haltNext .endInObject

/-! ### Strings -/

def hexDigit? (c : Char) : Option Nat :=
  if c.isDigit then some (c.toNat - '0'.toNat)
  else if 'a' ≤ c ∧ c ≤ 'f' then some (c.toNat - 'a'.toNat + 10)
  else if 'A' ≤ c ∧ c ≤ 'F' then some (c.toNat - 'A'.toNat + 10)
  else none

def hexValue? (s : List Char) : Option Nat :=
  s.foldlM (fun n c => (hexDigit? c).map (16 * n + ·)) 0

def byteCount (s : List Char) : Nat := s.foldl (fun n c => n + c.utf8Size) 0

/-- A code unit in four hexadecimal digits. -/
def codeUnit : Reader Nat := do
  let s ← get
  if byteCount s < 4 then
    set ([] : List Char)
    halt .endInString
  else
    match s with
    | a :: b :: c :: d :: rest =>
      match hexValue? [a, b, c, d] with
      | some n =>
        set rest
        return n
      | none => haltAhead 4 .badEscape
    | _ => haltAhead 4 .badEscape

/-- The character that a backslash and a letter stand for. -/
def simpleEscape? : Char → Option Char
  | '"' => some '"'
  | '\\' => some '\\'
  | '/' => some '/'
  | 'b' => some '\x08'
  | 'f' => some '\x0c'
  | 'n' => some '\n'
  | 'r' => some '\r'
  | 't' => some '\t'
  | _ => none

def isHigh (n : Nat) : Bool := 0xD800 ≤ n && n < 0xDC00

def isLow (n : Nat) : Bool := 0xDC00 ≤ n && n < 0xE000

/-- Passes a character between the two halves of a surrogate pair. -/
def pairMark (c : Char) : Reader Unit := do
  if ← accept c then return
  else if (← get).isEmpty then halt .endInString
  else haltNext .endOfPair

/-- The character of a code unit, with the other half if it is the first of a pair. -/
def paired (high : Nat) : Reader Char := do
  if isHigh high then
    pairMark '\\'
    pairMark 'u'
    let low ← codeUnit
    if isLow low then return .ofNat (0x10000 + (high - 0xD800) * 0x400 + (low - 0xDC00))
    else halt .loneSurrogate
  else if isLow high then halt .loneSurrogate
  else return .ofNat high

/-- What follows a backslash. A string that is passed over may hold half of a pair. -/
def escaped (strict : Bool) : Reader (List Char) := do
  match ← get with
  | [] => halt .endInString
  | 'u' :: s =>
    set s
    let n ← codeUnit
    if strict then return [← paired n] else return []
  | c :: s =>
    match simpleEscape? c with
    | none => haltNext .badEscape
    | some c =>
      set s
      return [c]

/-- The characters behind an opening quote, up to the closing one. -/
def characters (strict : Bool) : (fuel : Nat) → Reader (List Char)
  | 0 => halt .endInString
  | fuel + 1 => do
    match ← get with
    | [] => halt .endInString
    | '"' :: s =>
      set s
      return []
    | '\\' :: s =>
      set s
      let c ← escaped strict
      return c ++ (← characters strict fuel)
    | c :: s =>
      if c.toNat < 0x20 then
        if strict then haltNext .controlCharacter else halt .controlCharacter
      else
        set s
        return c :: (← characters strict fuel)

/-- Reads a string with its quotes; each step passes a character at least. -/
def string (strict : Bool) : Reader String := do
  pass
  return .ofList (← characters strict ((← get).length + 1))

/-! ### Numbers -/

/-- A number as it is written. -/
structure Numeral where
  negative : Bool
  whole : List Char
  fraction : Option (List Char)
  /-- The sign of the exponent and its digits. -/
  exponent : Option (Bool × List Char)

def digits : Reader (List Char) := do
  let s ← get
  set (s.dropWhile Char.isDigit)
  return s.takeWhile Char.isDigit

/-- Digits where one is due at least. A text that ends there has the fault `atEnd`. -/
def someDigits (atEnd : Fault) : Reader (List Char) := do
  let ds ← digits
  if !ds.isEmpty then return ds
  else if (← get).isEmpty then halt atEnd
  else haltNext .badNumber

def numeral (atEnd : Fault) : Reader Numeral := do
  let negative ← accept '-'
  let whole ←
    if ← accept '0' then
      if ((← get).head?.any Char.isDigit) then haltNext .badNumber else pure ['0']
    else someDigits atEnd
  let fraction ← if ← accept '.' then some <$> someDigits atEnd else pure none
  let exponent ←
    if ← accept 'e' <||> accept 'E' then
      let below ← accept '-'
      unless below do discard (accept '+')
      pure (some (below, ← someDigits atEnd))
    else pure none
  return { negative, whole, fraction, exponent }

/-- What a number is good for. -/
inductive Number where
  /-- A number that a word can hold. -/
  | natural (n : Nat)
  /-- The number `-n`, which a word with a sign can hold. -/
  | negative (n : Nat)
  | float (text : String)

def Number.found : Number → Found
  | natural n => .natural n
  | negative n => .negative n
  | float text => .float text

/-- The digits that a word can hold, as a number, and how many are left. -/
def wordOf (n : Nat) : List Char → Nat × Nat
  | [] => (n, 0)
  | c :: cs =>
    let m := n * 10 + (c.toNat - '0'.toNat)
    if m < UInt64.size then wordOf m cs else (n, cs.length + 1)

/-- A word times a power of ten, unless it is too large. Two divisions take any word to
zero, and powers up to the 308th are numbers themselves. -/
def scaled? (x : Float) (exponent : Int) : Option Float :=
  let power (n : Nat) := Float.ofScientific 1 false n
  let size := exponent.natAbs
  if 0 ≤ exponent then
    if size ≤ 308 then some (x * power size) |>.filter (!·.isInf)
    else if x == 0 then some x
    else none
  else if size ≤ 308 then some (x / power size)
  else some (x / power 308 / power (min (size - 308) 308))

namespace Numeral

/-- The value of a numeral, unless it is too large. Digits that a word cannot hold any
more do not count, except for the size of the number. -/
def value? (n : Numeral) : Option Number := do
  let (word, dropped) := wordOf 0 n.whole
  let sign := if n.negative then "-" else ""
  if n.fraction.isNone && n.exponent.isNone && dropped = 0 &&
      (!n.negative || (0 < word && word ≤ 1 <<< 63)) then
    return if n.negative then .negative word else .natural word
  let places := n.fraction.getD []
  let (word, unused) := wordOf word places
  let shift : Int :=
    match n.exponent with
    | none => 0
    | some (below, ds) =>
      let e : Int := ds.foldl (fun e c => e * 10 + (c.toNat - '0'.toNat)) 0
      if below then -e else e
  let x ← scaled? (Float.ofNat word) (dropped - (places.length - unused : Nat) + shift)
  return .float (sign ++ floatText x)

end Numeral

/-- The digits behind the first with which `n` and the digits exceed an integer of 32 bits
with a sign. -/
def excess (n : Nat) : List Char → List Char
  | [] => []
  | c :: cs =>
    let m := n * 10 + (c.toNat - '0'.toNat)
    if m < 1 <<< 31 then excess m cs else cs

/-- Reads a number. One that is too large is given up at once when its exponent is. -/
def number : Reader Number := do
  let n ← numeral .endInValue
  match n.value? with
  | some n => return n
  | none =>
    let unread := (n.exponent.map fun (_, ds) => excess 0 ds).getD []
    modify (unread ++ ·)
    halt .numberTooLarge

/-! ### Values of one kind -/

def startsNumber (c : Char) : Bool := c == '-' || c.isDigit

/-- Names the next value. A number or a string is read, a container only looked at. -/
def found : Reader Found := do
  match (← get).head? with
  | some 'n' =>
    word "null".toList
    return .null
  | some 't' =>
    word "true".toList
    return .bool true
  | some 'f' =>
    word "false".toList
    return .bool false
  | some '"' => return .string (← string true)
  | some '[' => return .array
  | some '\x7b' => return .object
  | some c => if startsNumber c then return (← number).found else haltNext .expectedValue
  | none => haltNext .expectedValue

/-- Refuses the next value because it is not the expected one. -/
def refuse (expected : String) : Reader α := do halt (.wrongType (← found) expected)

/-- A number that a word can hold. -/
def natural (expected : String) : Reader Nat := do
  if startsNumber (← next) then
    match ← number with
    | .natural n => return n
    | .negative n => halt (.wrongValue (.negative n) expected)
    | .float text => halt (.wrongType (.float text) expected)
  else refuse expected

def bool : Reader Bool := do
  match ← next with
  | 't' =>
    word "true".toList
    return true
  | 'f' =>
    word "false".toList
    return false
  | _ => refuse "a boolean"

def null : Reader Unit := do
  if (← next) = 'n' then word "null".toList else refuse "unit"

/-- A value, or null in its place. -/
def optional (read : Reader α) : Reader (Option α) := do
  if (← next?) = some 'n' then
    word "null".toList
    return none
  else return some (← read)

/-- A string that is one of the known names. -/
def name (known : List String) : Reader String := do
  if (← next) = '"' then
    let s ← string true
    if s ∈ known then return s else halt (.unknownName s known)
  else refuse "variant identifier"

/-- One of the known names, or an object with the name and null. -/
def choice (known : List String) : Reader String := do
  match ← next with
  | '"' => name known
  | '\x7b' =>
    pass
    match ← next? with
    | some '"' => pure ()
    | some '\x7d' => haltNext .expectedValue
    | some _ => haltNext .nameNotString
    | none => halt .endInObject
    let s ← name known
    colon
    null
    match ← next? with
    | some '\x7d' =>
      pass
      return s
    | some _ => halt .expectedValue
    | none => halt .endInObject
  | _ => haltNext .expectedValue

/-! ### Values that are passed over -/

/-- What is passed over of a container that has begun. -/
inductive Part where
  | value
  /-- The items of an array, or its end if `first`. -/
  | items (first : Bool)
  /-- The members of an object, or its end if `first`. -/
  | members (first : Bool)

def skipPart : (fuel : Nat) → Part → Reader Unit
  | 0, _ => halt .endInValue
  | fuel + 1, .value => do
    match ← next with
    | 'n' => word "null".toList
    | 't' => word "true".toList
    | 'f' => word "false".toList
    | '"' => discard (string false)
    | '[' =>
      pass
      skipPart fuel (.items true)
    | '\x7b' =>
      pass
      skipPart fuel (.members true)
    | c => if startsNumber c then discard (numeral .badNumber) else haltNext .expectedValue
  | fuel + 1, .items first => do
    match first, ← next? with
    | true, some ']' => pass
    | true, none => haltNext .endInArray
    | _, _ =>
      skipPart fuel .value
      match ← next? with
      | some ',' =>
        pass
        skipPart fuel (.items false)
      | some ']' => pass
      | some _ => haltNext .expectedItemEnd
      | none => haltNext .endInArray
  | fuel + 1, .members first => do
    match first, ← next? with
    | true, some '\x7d' => pass
    | _, some '"' =>
      discard (string false)
      colon
      skipPart fuel .value
      match ← next? with
      | some ',' =>
        pass
        skipPart fuel (.members false)
      | some '\x7d' => pass
      | some _ => haltNext .expectedMemberEnd
      | none => haltNext .endInObject
    | _, some _ => haltNext .nameNotString
    | _, none => haltNext .endInObject

/-- Passes over a value; a step for each character and one more are enough. -/
def skip : Reader Unit := do skipPart (2 * (← get).length + 1) .value

/-! ### Records -/

/-- A member of a record: its name, and how it is read into the record. -/
structure Member (α : Type) where
  name : String
  read : α → Reader α

/-- Passes over what separates the next member from the one before, and tells whether
there is one. -/
def moreMembers (first : Bool) : Reader Bool := do
  match ← next? with
  | some '\x7d' => return false
  | some c =>
    if first then
      if c = '"' then return true else haltNext .nameNotString
    else if c = ',' then
      pass
      match ← next? with
      | some '"' => return true
      | some '\x7d' => haltNext .trailingComma
      | some _ => haltNext .nameNotString
      | none => haltNext .endInValue
    else haltNext .expectedMemberEnd
  | none => haltNext .endInObject

/-- The members of an object that has begun. Those in `given` have been read already. -/
def members (known : List (Member α)) :
    (fuel : Nat) → (first : Bool) → (given : List String) → α → Reader α
  | 0, _, _, _ => halt .endInObject
  | fuel + 1, first, given, a => do
    if ← moreMembers first then
      let name ← string true
      match known.find? (·.name = name) with
      | none =>
        colon
        skip
        members known fuel false given a
      | some m =>
        if name ∈ given then
          if (← next?) = some '\x7d' then pass
          halt (.givenTwice name)
        else
          colon
          members known fuel false (name :: given) (← m.read a)
    else
      pass
      return a

/-- The items of an array that has begun. Only without `missing` may the last ones be
missing. -/
def items (missing : Option Fault) : List (Member α) → (first : Bool) → α → Reader α
  | [], _, a => do
    match ← next? with
    | some ']' =>
      pass
      return a
    | some ',' =>
      pass
      if (← next?) = some ']' then haltNext .trailingComma else haltNext .trailing
    | some _ => haltNext .trailing
    | none => haltNext .endInArray
  | m :: known, first, a => do
    match ← next? with
    | some ']' =>
      pass
      match missing with
      | some fault => halt fault
      | none => return a
    | some c =>
      if !first then
        if c = ',' then
          pass
          match ← next? with
          | some ']' => haltNext .trailingComma
          | some _ => pure ()
          | none => haltNext .endInValue
        else haltNext .expectedItemEnd
      items missing known false (← m.read a)
    | none => haltNext .endInArray

/-- A record. Values that are missing stay as they are in `a`. -/
def record (title : String) (missing : Option Fault) (known : List (Member α)) (a : α) :
    Reader α := do
  match ← next with
  | '[' =>
    pass
    items missing known true a
  | '\x7b' =>
    pass
    members known ((← get).length + 1) true [] a
  | _ => refuse title

/-! ### Texts -/

/-- The place after the first bytes of a text. -/
def placeAfter (text : String) (bytes : Nat) : Place :=
  let passed := text.toUTF8.toList.take bytes
  ⟨1 + passed.count 10, (passed.reverse.takeWhile (· ≠ 10)).length⟩

/-- Reads a text that holds one value and nothing else. -/
def ofText? (read : Reader α) (text : String) : Except (Fault × Place) α :=
  let whole : Reader α := do
    let a ← read
    if (← next?).isSome then haltNext .trailing
    return a
  match whole.run text.toList with
  | .ok (a, _) => .ok a
  | .error h => .error (h.fault, placeAfter text (text.utf8ByteSize - byteCount h.rest + h.ahead))

end StandingQuery.Text.Json
