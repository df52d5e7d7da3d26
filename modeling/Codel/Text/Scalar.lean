import Codel.Text.Bytes

namespace Codel

/-- A piece of a byte string read as UTF-8. -/
inductive Piece where
  | char (c : Char)
  | stray (b : UInt8)
deriving DecidableEq, Repr

/-- The character U+FFFD, which stands for a stray byte. -/
def replacement : Char := Char.ofNat 0xFFFD

def Piece.toChar : Piece → Char
  | .char c => c
  | .stray _ => replacement

def Piece.bytes : Piece → Bytes
  | .char c => String.utf8EncodeChar c
  | .stray b => [b]

/-- Continuation bytes of UTF-8. -/
def isTail (b : UInt8) : Bool := 0x80 ≤ b && b ≤ 0xBF

/-- The values the second byte of a character may take after its first byte. -/
def secondRange (b : UInt8) : UInt8 × UInt8 :=
  if b = 0xE0 then (0xA0, 0xBF)
  else if b = 0xED then (0x80, 0x9F)
  else if b = 0xF0 then (0x90, 0xBF)
  else if b = 0xF4 then (0x80, 0x8F)
  else (0x80, 0xBF)

/-- The low six bits of a continuation byte. -/
def tailBits (b : UInt8) : Nat := b.toNat % 64

/-- The piece that starts with `b` when `rest` follows, and how many bytes of `rest` belong to it. -/
def leadPiece (b : UInt8) (rest : Bytes) : Piece × Nat :=
  let second (c : UInt8) : Bool := (secondRange b).1 ≤ c && c ≤ (secondRange b).2
  if b < 0x80 then (.char (Char.ofNat b.toNat), 0)
  else if 0xC2 ≤ b && b ≤ 0xDF then
    match rest with
    | c :: _ =>
      if second c then (.char (Char.ofNat (b.toNat % 32 * 64 + tailBits c)), 1) else (.stray b, 0)
    | [] => (.stray b, 0)
  else if 0xE0 ≤ b && b ≤ 0xEF then
    match rest with
    | c :: d :: _ =>
      if second c && isTail d then
        (.char (Char.ofNat ((b.toNat % 16 * 64 + tailBits c) * 64 + tailBits d)), 2)
      else (.stray b, 0)
    | _ => (.stray b, 0)
  else if 0xF0 ≤ b && b ≤ 0xF4 then
    match rest with
    | c :: d :: e :: _ =>
      if second c && isTail d && isTail e then
        (.char (Char.ofNat
          (((b.toNat % 8 * 64 + tailBits c) * 64 + tailBits d) * 64 + tailBits e)), 3)
      else (.stray b, 0)
    | _ => (.stray b, 0)
  else (.stray b, 0)

/-- The first piece of a byte string and the bytes after it. -/
def nextPiece? : Bytes → Option (Piece × Bytes)
  | [] => none
  | b :: rest =>
    let (p, width) := leadPiece b rest
    some (p, rest.drop width)

/-- Cuts a byte string into pieces after passing over the first `skip` bytes. -/
def piecesAfter : (skip : Nat) → Bytes → List Piece
  | _, [] => []
  | skip + 1, _ :: rest => piecesAfter skip rest
  | 0, b :: rest =>
    let (p, width) := leadPiece b rest
    p :: piecesAfter width rest

def pieces (bs : Bytes) : List Piece := piecesAfter 0 bs

/-- Reads bytes as text, a stray byte as U+FFFD. -/
def Bytes.toText (bs : Bytes) : String := String.ofList ((pieces bs).map Piece.toChar)

/-- The characters of a list of pieces, if no byte is stray. -/
def Piece.chars? : List Piece → Option (List Char)
  | [] => some []
  | .char c :: ps => (chars? ps).map (c :: ·)
  | .stray _ :: _ => none

end Codel
