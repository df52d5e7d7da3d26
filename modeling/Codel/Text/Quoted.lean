import Codel.Text.Printable
import Codel.Text.Scalar

namespace Codel

/-- The letter of a control character's short escape. -/
def shortEscape? (c : Char) : Option Char :=
  match c.toNat with
  | 7 => some 'a'
  | 8 => some 'b'
  | 9 => some 't'
  | 10 => some 'n'
  | 11 => some 'v'
  | 12 => some 'f'
  | 13 => some 'r'
  | _ => none

/-- A character between double quotes. -/
def quotedChar (c : Char) : List Char :=
  if c = '"' ∨ c = '\\' then ['\\', c]
  else if isPrintable c then [c]
  else
    match shortEscape? c with
    | some e => ['\\', e]
    | none =>
      if c.toNat < 0x20 ∨ c.toNat = 0x7F then '\\' :: 'x' :: hexPadded 2 c.toNat
      else if c.toNat < 0x10000 then '\\' :: 'u' :: hexPadded 4 c.toNat
      else '\\' :: 'U' :: hexPadded 8 c.toNat

/-- A piece between double quotes; a stray byte is written in hexadecimal. -/
def Piece.quoted : Piece → List Char
  | .char c => quotedChar c
  | .stray b => '\\' :: 'x' :: hexPadded 2 b.toNat

def quotedBytes (bs : Bytes) : String :=
  String.ofList ('"' :: (pieces bs).flatMap Piece.quoted ++ ['"'])

def quoted (s : String) : String := String.ofList ('"' :: s.toList.flatMap quotedChar ++ ['"'])

end Codel
