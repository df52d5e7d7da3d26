namespace Codel

abbrev Bytes := List UInt8

/-- The UTF-8 form of a text. -/
def Bytes.ofString (s : String) : Bytes := s.toList.flatMap String.utf8EncodeChar

/-- The UTF-8 form of a list of characters. -/
def Bytes.ofChars (cs : List Char) : Bytes := cs.flatMap String.utf8EncodeChar

theorem Bytes.ofChars_append (xs ys : List Char) :
    Bytes.ofChars (xs ++ ys) = Bytes.ofChars xs ++ Bytes.ofChars ys := by
  simp [Bytes.ofChars]

/-- The value of a hexadecimal digit of either case. -/
def hexValue? (c : Char) : Option Nat :=
  if '0' ≤ c ∧ c ≤ '9' then some (c.toNat - 48)
  else if 'a' ≤ c ∧ c ≤ 'f' then some (c.toNat - 87)
  else if 'A' ≤ c ∧ c ≤ 'F' then some (c.toNat - 55)
  else none

/-- The lower-case hexadecimal digit of a number below sixteen. -/
def hexDigit (n : Nat) : Char := Nat.digitChar n

/-- Lower-case hexadecimal digits of `n`, padded with zeros on the left to `width`. -/
def hexPadded (width n : Nat) : List Char :=
  let ds := Nat.toDigits 16 n
  List.replicate (width - ds.length) '0' ++ ds

/-- Two lower-case hexadecimal digits for each byte. -/
def Bytes.toHex (bs : Bytes) : String :=
  String.ofList (bs.flatMap fun b => [hexDigit (b.toNat / 16), hexDigit (b.toNat % 16)])

/-- Reads pairs of hexadecimal digits; none when a digit is wrong or one is left over. -/
def Bytes.ofHexDigits? : List Char → Option Bytes
  | [] => some []
  | [_] => none
  | a :: b :: rest => do
    let hi ← hexValue? a
    let lo ← hexValue? b
    let bs ← ofHexDigits? rest
    return UInt8.ofNat (16 * hi + lo) :: bs

/-- Reads a hexadecimal text as bytes. -/
def Bytes.ofHex? (s : String) : Option Bytes := Bytes.ofHexDigits? s.toList

/-- The number that bytes spell with the most significant byte first. -/
def Bytes.toNatBig (bs : Bytes) : Nat := bs.foldl (fun n b => 256 * n + b.toNat) 0

/-- The number that bytes spell with the least significant byte first. -/
def Bytes.toNatLittle (bs : Bytes) : Nat := bs.foldr (fun b n => b.toNat + 256 * n) 0

/-- `n` in `width` bytes, the most significant first; what does not fit is dropped. -/
def Bytes.ofNatBig : (width : Nat) → (n : Nat) → Bytes
  | 0, _ => []
  | width + 1, n => UInt8.ofNat (n >>> (8 * width)) :: Bytes.ofNatBig width n

@[simp] theorem Bytes.length_ofNatBig (width n : Nat) : (Bytes.ofNatBig width n).length = width := by
  induction width with
  | zero => rfl
  | succ width ih => simp [Bytes.ofNatBig, ih]

end Codel
