import Codel.Text.Bytes
import Codel.Toml.Reader

namespace Codel.Toml

/-- Whether every underscore follows a digit and a digit ends the text, hexadecimal digits
included; `after` tells whether a digit stood last. -/
def underscoresFit : (after : Bool) → List Char → Bool
  | after, [] => after
  | after, c :: cs => (c ≠ '_' || after) && underscoresFit (hexValue? c).isSome cs

/-- Whether a number has a zero in front of other digits. A leading zero that announces a base is
none. -/
def hasLeadingZero : List Char → Bool
  | '0' :: c :: _ => c ≠ 'b' && c ≠ 'o' && c ≠ 'x'
  | '-' :: '0' :: _ :: _ => true
  | '+' :: '0' :: _ :: _ => true
  | _ => false

/-- The value of a whole text as an integer of 64 bits. -/
def integer? (cs : List Char) : Option Int64 :=
  if underscoresFit false cs && !hasLeadingZero cs then (readLiteral cs).toOption else none

/-- The parts of a fraction: what stands between points and exponent marks. -/
def fractionParts : (part : List Char) → List Char → List (List Char)
  | part, [] => [part.reverse]
  | part, c :: cs =>
    if c = '.' || c = 'e' || c = 'E' then part.reverse :: fractionParts [] cs
    else fractionParts (c :: part) cs

/-- Whether a digit follows every point. -/
def pointsFit : List Char → Bool
  | [] => true
  | '.' :: cs => (cs.head?.map Char.isDigit).getD false && pointsFit cs
  | _ :: cs => pointsFit cs

/-- The floating-point number nearest to `m * 10 ^ e`; none if it is too large. Far below the
smallest number the result is zero. -/
def nearest? (m : Nat) (e : Int) : Option Float :=
  let order := (Nat.toDigits 10 m).length + e
  if m = 0 ∨ order < -400 then some 0
  else if 310 < order then none
  else
    let x := Float.ofScientific m (e < 0) e.natAbs
    if x.isInf then none else some x

/-- The exponent at the end of a decimal fraction, zero if there is none. -/
def exponentPart : List Char → Option Int
  | [] => some 0
  | c :: cs =>
    let (negative, ds) := splitSign cs
    if (c = 'e' ∨ c = 'E') ∧ ds ≠ [] ∧ ds.all Char.isDigit then
      let n : Int := Nat.ofDigitChars 10 ds 0
      some (if negative then -n else n)
    else none

/-- The digits after a decimal point, if there is one, and what follows. -/
def pointPart : List Char → List Char × List Char
  | '.' :: cs => (cs.takeWhile Char.isDigit, cs.dropWhile Char.isDigit)
  | cs => ([], cs)

/-- The value of a whole text without underscores as a decimal fraction. -/
def decimalFraction? (cs : List Char) : Option Float := do
  let (negative, cs) := splitSign cs
  let whole := cs.takeWhile Char.isDigit
  let (fraction, cs) := pointPart (cs.dropWhile Char.isDigit)
  if whole = [] then none
  else
    let e ← exponentPart cs
    let x ← nearest? (Nat.ofDigitChars 10 (whole ++ fraction) 0) (e - fraction.length)
    return if negative then -x else x

/-- The value of a whole text as a fraction. -/
def fraction? (cs : List Char) : Option Float :=
  let parts := (fractionParts [] cs).filter (· ≠ [])
  if parts.all (underscoresFit false) && !hasLeadingZero (parts.headD []) && pointsFit cs then
    decimalFraction? (cs.filter (· ≠ '_'))
  else none

end Codel.Toml
