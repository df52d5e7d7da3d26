namespace Codel

/-- Decimal digits with a leading minus sign for negative numbers. -/
def decimal (n : Int) : List Char :=
  if n < 0 then '-' :: Nat.toDigits 10 n.natAbs else Nat.toDigits 10 n.natAbs

/-- The decimal form of an integer as a string. -/
def decimalText (n : Int) : String := String.ofList (decimal n)

/-- The decimal form of a 64-bit integer as a string. -/
def wordText (n : Int64) : String := decimalText n.toInt

/-- The 64-bit integer equal to `n`, if there is one. -/
def word? (n : Int) : Option Int64 :=
  if -0x8000000000000000 ≤ n ∧ n < 0x8000000000000000 then some (Int64.ofInt n) else none

/-- Splits off an optional sign; true means minus. -/
def splitSign : List Char → Bool × List Char
  | '-' :: cs => (true, cs)
  | '+' :: cs => (false, cs)
  | cs => (false, cs)

/-- Reads an optional sign and one or more decimal digits as a 64-bit integer. -/
def readDecimal? (cs : List Char) : Option Int64 :=
  let (neg, ds) := splitSign cs
  if ds ≠ [] ∧ ds.all Char.isDigit then
    let n : Int := Nat.ofDigitChars 10 ds 0
    word? (if neg then -n else n)
  else none

/-- Why a text is no integer literal. -/
inductive LiteralFault where
  | malformed
  | outOfRange
deriving DecidableEq, Repr

/-- The value of a letter or digit as a digit of a base up to 36. -/
def digitValue? (c : Char) : Option Nat :=
  if '0' ≤ c ∧ c ≤ '9' then some (c.toNat - 48)
  else if 'a' ≤ c ∧ c ≤ 'z' then some (c.toNat - 87)
  else if 'A' ≤ c ∧ c ≤ 'Z' then some (c.toNat - 55)
  else none

/-- Reads digits of `base` onto `n`, passing over underscores, and stops as soon as the number
leaves 64 unsigned bits. -/
def readDigits (base : Nat) : (n : Nat) → List Char → Except LiteralFault Nat
  | n, [] => .ok n
  | n, '_' :: cs => readDigits base n cs
  | n, c :: cs =>
    match digitValue? c with
    | none => .error .malformed
    | some d =>
      if base ≤ d then .error .malformed
      else if 0x10000000000000000 ≤ base * n + d then .error .outOfRange
      else readDigits base (base * n + d) cs

/-- What stood last while underscores are checked. -/
inductive LastSeen where
  | start
  | digit
  | underscore
  | other
deriving DecidableEq

/-- Whether every underscore follows a digit and precedes one. -/
def underscoresSeparate (hex : Bool) : LastSeen → List Char → Bool
  | last, [] => last ≠ .underscore
  | last, c :: cs =>
    if c.isDigit || (hex && (hexLetter c)) then underscoresSeparate hex .digit cs
    else if c = '_' then last = .digit && underscoresSeparate hex .underscore cs
    else last ≠ .underscore && underscoresSeparate hex .other cs
where
  hexLetter (c : Char) : Bool := ('a' ≤ c && c ≤ 'f') || ('A' ≤ c && c ≤ 'F')

/-- The base that a literal's first characters announce, the digits after the announcement, and
whether an underscore may follow it at once. A leading zero announces octal. -/
def literalBase : List Char → Nat × List Char × LastSeen
  | ['0'] => (8, [], .start)
  | '0' :: x :: d :: cs =>
    if x = 'x' ∨ x = 'X' then (16, d :: cs, .digit)
    else if x = 'o' ∨ x = 'O' then (8, d :: cs, .digit)
    else if x = 'b' ∨ x = 'B' then (2, d :: cs, .digit)
    else (8, x :: d :: cs, .digit)
  | '0' :: cs => (8, cs, .digit)
  | cs => (10, cs, .start)

/-- Reads an integer literal: an optional sign, a base announced by `0x`, `0o`, `0b` or a leading
zero, and digits that underscores may separate. -/
def readLiteral (cs : List Char) : Except LiteralFault Int64 :=
  let (neg, body) := splitSign cs
  let (base, ds, last) := literalBase body
  if body = [] then .error .malformed
  else
    match readDigits base 0 ds with
    | .error e => .error e
    | .ok n =>
      if ds.contains '_' && !underscoresSeparate (base == 16) last ds then .error .malformed
      else
        match word? (if neg then -(n : Int) else n) with
        | some w => .ok w
        | none => .error .outOfRange

end Codel
