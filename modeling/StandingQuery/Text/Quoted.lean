import StandingQuery.Text.CharClass

/-! Quoted texts.

Three ways to set a text off. A *quoted* text is a piece of input inside a message and
stands as it is. A *shown* text is for people too, but what could not be seen on a page
is written as its code point. A *stored* text is a JSON string: only what the format
asks for is escaped. -/
namespace StandingQuery.Text

def quoted (s : String) : String := "`" ++ s ++ "`"

/-- A character that cannot be seen by itself. -/
def isHidden (c : Char) : Bool := inRanges hiddenRanges c

/-- The code point in lower-case hexadecimal digits. -/
def hex (n : Nat) : List Char := Nat.toDigits 16 n

/-- A character of a shown text. -/
def showChar (c : Char) : List Char :=
  match c with
  | '"' => ['\\', '"']
  | '\\' => ['\\', '\\']
  | '\n' => ['\\', 'n']
  | '\r' => ['\\', 'r']
  | '\t' => ['\\', 't']
  | '\x00' => ['\\', '0']
  | c => if isHidden c then ['\\', 'u', '\x7b'] ++ hex c.toNat ++ ['\x7d'] else [c]

/-- A character of a stored text. -/
def storeChar (c : Char) : List Char :=
  match c with
  | '"' => ['\\', '"']
  | '\\' => ['\\', '\\']
  | '\n' => ['\\', 'n']
  | '\r' => ['\\', 'r']
  | '\t' => ['\\', 't']
  | '\x08' => ['\\', 'b']
  | '\x0c' => ['\\', 'f']
  | c =>
    if c.toNat < 0x10 then ['\\', 'u', '0', '0', '0'] ++ hex c.toNat
    else if c.toNat < 0x20 then ['\\', 'u', '0', '0'] ++ hex c.toNat
    else [c]

/-- Writes a text between quotes. -/
def between (char : Char → List Char) (s : String) : String :=
  .ofList ('"' :: s.toList.flatMap char ++ ['"'])

def shown (s : String) : String := between showChar s

def stored (s : String) : String := between storeChar s

end StandingQuery.Text
