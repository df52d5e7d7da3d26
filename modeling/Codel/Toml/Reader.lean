import Codel.Text.Integer

namespace Codel.Toml

/-- A reader takes what it understands off the front of a text. -/
abbrev Reader (α : Type) := List Char → Option (α × List Char)

def expect (c : Char) : Reader Unit
  | d :: cs => if c = d then some ((), cs) else none
  | [] => none

/-- Reads exactly `n` decimal digits. -/
def fixedNumber (n : Nat) : Reader Nat := fun cs =>
  let ds := cs.take n
  if ds.length = n ∧ ds.all Char.isDigit then some (Nat.ofDigitChars 10 ds 0, cs.drop n) else none

/-- Blanks within a line. -/
def isSpace (c : Char) : Bool := c = ' ' || c = '\t'

/-- Characters that end a line. -/
def isNewline (c : Char) : Bool := c = '\n' || c = '\r'

/-- Drops blanks at the front of a line. -/
def skipSpaces (cs : List Char) : List Char := cs.dropWhile isSpace

/-- Drops blanks, line ends and comments; `inComment` tells whether a comment is under way. -/
def skipFiller : (inComment : Bool) → List Char → List Char
  | _, [] => []
  | true, c :: cs => skipFiller (!isNewline c) cs
  | false, c :: cs =>
    if isSpace c || isNewline c then skipFiller false cs
    else if c = '#' then skipFiller true cs
    else c :: cs

end Codel.Toml
