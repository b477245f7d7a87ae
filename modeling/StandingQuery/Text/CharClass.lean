import StandingQuery.Text.CharTables

/-! Classes of characters, and trimming.

Blank, word and digit characters are those of all scripts, not of ASCII alone. The
letters that may begin a name, or stand in a language tag, are ASCII letters. -/
namespace StandingQuery.Text

/-- A character lies in one of the ranges. -/
def inRanges (ranges : List (Nat × Nat)) (c : Char) : Bool :=
  ranges.any fun (first, last) => first ≤ c.toNat && c.toNat ≤ last

/-- White space. -/
def isBlank (c : Char) : Bool :=
  inRanges [(0x0009, 0x000D), (0x0020, 0x0020), (0x0085, 0x0085), (0x00A0, 0x00A0),
    (0x1680, 0x1680), (0x2000, 0x200A), (0x2028, 0x2029), (0x202F, 0x202F), (0x205F, 0x205F),
    (0x3000, 0x3000)] c

/-- A character that can stand in a word. -/
def isWord (c : Char) : Bool := inRanges wordRanges c

/-- A decimal digit of any script. -/
def isDigit (c : Char) : Bool := inRanges digitRanges c

def isLetter (c : Char) : Bool := c.isAlpha

def isLetterOrDigit (c : Char) : Bool := c.isAlphanum

/-! ### Trimming -/

def trimStart (s : List Char) : List Char := s.dropWhile isBlank

def trimEnd (s : List Char) : List Char := (s.reverse.dropWhile isBlank).reverse

def trim (s : List Char) : List Char := trimEnd (trimStart s)

end StandingQuery.Text
