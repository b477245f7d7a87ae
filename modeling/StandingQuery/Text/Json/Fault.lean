import StandingQuery.Text.Quoted

/-! What can be wrong with a JSON text.

Either the text breaks a rule of the format, or a value in it is not what is asked for
at its place. A fault has a place, which is counted in lines, and in bytes within the
line. -/
namespace StandingQuery.Text.Json

/-- A value as it is named when it is not the expected one. -/
inductive Found where
  | null
  | bool (b : Bool)
  | natural (n : Nat)
  /-- The number `-n`. -/
  | negative (n : Nat)
  /-- A number with a fraction or an exponent, or one that is too large for a word. -/
  | float (text : String)
  | string (s : String)
  | array
  | object
deriving DecidableEq

namespace Found

def message : Found → String
  | null => "null"
  | bool b => "boolean " ++ quoted (toString b)
  | natural n => "integer " ++ quoted (toString n)
  | negative n => "integer " ++ quoted ("-" ++ toString n)
  | float text => "floating point " ++ quoted text
  | string s => "string " ++ shown s
  | array => "sequence"
  | object => "map"

end Found

inductive Fault where
  | endInArray
  | endInObject
  | endInString
  | endInValue
  | expectedColon
  | expectedItemEnd
  | expectedMemberEnd
  | expectedWord
  | expectedValue
  | badEscape
  | badNumber
  | numberTooLarge
  | controlCharacter
  | nameNotString
  /-- Half of a surrogate pair where the other half is due, or without it. -/
  | loneSurrogate
  | endOfPair
  | trailingComma
  | trailing
  | wrongType (found : Found) (expected : String)
  | wrongValue (found : Found) (expected : String)
  | unknownName (name : String) (known : List String)
  | givenTwice (name : String)
  | tooShort (length : Nat) (expected : String)
deriving DecidableEq

namespace Fault

def message : Fault → String
  | endInArray => "EOF while parsing a list"
  | endInObject => "EOF while parsing an object"
  | endInString => "EOF while parsing a string"
  | endInValue => "EOF while parsing a value"
  | expectedColon => "expected `:`"
  | expectedItemEnd => "expected `,` or `]`"
  | expectedMemberEnd => "expected `,` or `\x7d`"
  | expectedWord => "expected ident"
  | expectedValue => "expected value"
  | badEscape => "invalid escape"
  | badNumber => "invalid number"
  | numberTooLarge => "number out of range"
  | controlCharacter => "control character (\\u0000-\\u001F) found while parsing a string"
  | nameNotString => "key must be a string"
  | loneSurrogate => "lone leading surrogate in hex escape"
  | endOfPair => "unexpected end of hex escape"
  | trailingComma => "trailing comma"
  | trailing => "trailing characters"
  | wrongType found expected => "invalid type: " ++ found.message ++ ", expected " ++ expected
  | wrongValue found expected => "invalid value: " ++ found.message ++ ", expected " ++ expected
  | unknownName name known =>
    "unknown variant " ++ quoted name ++ ", expected " ++ " or ".intercalate (known.map quoted)
  | givenTwice name => "duplicate field " ++ quoted name
  | tooShort length expected => "invalid length " ++ toString length ++ ", expected " ++ expected

end Fault

/-- Where a fault shows. -/
structure Place where
  /-- Counted from one. -/
  line : Nat
  /-- How many bytes of the line have been passed. -/
  column : Nat
deriving DecidableEq

def Place.message (p : Place) : String :=
  "line " ++ toString p.line ++ " column " ++ toString p.column

end StandingQuery.Text.Json
