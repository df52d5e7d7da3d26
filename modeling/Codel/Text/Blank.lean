import Codel.Text.Scalar

namespace Codel

/-- The characters with the property White_Space. -/
def isBlank (c : Char) : Bool :=
  let n := c.toNat
  (0x09 ≤ n && n ≤ 0x0D) || n = 0x20 || n = 0x85 || n = 0xA0 || n = 0x1680 ||
  (0x2000 ≤ n && n ≤ 0x200A) || n = 0x2028 || n = 0x2029 || n = 0x202F || n = 0x205F || n = 0x3000

def Piece.isBlank : Piece → Bool
  | .char c => Codel.isBlank c
  | .stray _ => false

/-- Drops white space at both ends. -/
def trimBlank (ps : List Piece) : List Piece :=
  ((ps.dropWhile Piece.isBlank).reverse.dropWhile Piece.isBlank).reverse

/-- The maximal runs of pieces that are not white space, `word` being the run under way. -/
def wordsFrom : (word : List Piece) → List Piece → List (List Piece)
  | word, [] => if word.isEmpty then [] else [word]
  | word, p :: ps =>
    if p.isBlank then
      if word.isEmpty then wordsFrom [] ps else word :: wordsFrom [] ps
    else wordsFrom (word ++ [p]) ps

/-- The words of a text: its maximal runs without white space. -/
def wordsOf (bs : Bytes) : List (List Piece) := wordsFrom [] (pieces bs)

end Codel
