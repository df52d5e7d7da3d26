namespace Codel

/-- A 64-bit floating-point number taken apart; a finite one is `mantissa * 2 ^ exponent`. -/
inductive Binary where
  | nan
  | infinite (negative : Bool)
  | finite (negative : Bool) (mantissa : Nat) (exponent : Int)
deriving DecidableEq, Repr

/-- The exponent of the numbers nearest to zero. -/
def Binary.leastExponent : Int := -1074

def Binary.ofFloat (x : Float) : Binary :=
  let bits := x.toBits.toNat
  let negative := decide (bits >>> 63 = 1)
  let e : Nat := (bits >>> 52) % 0x800
  let fraction := bits % 0x10000000000000
  if e = 2047 then if fraction = 0 then .infinite negative else .nan
  else if e = 0 then .finite negative fraction leastExponent
  else .finite negative (0x10000000000000 + fraction) ((e : Int) - 1075)

/-- A positive number as a fraction in lowest powers: `base ^ n` over one, or one over it. -/
def powerFraction (base : Nat) (n : Int) : Nat × Nat :=
  (Nat.pow base n.toNat, Nat.pow base (-n).toNat)

/-- The ends of the interval that rounds to `m * 2 ^ q`, in units of `2 ^ (q - 2)`. Below a power of
two the numbers lie twice as close. -/
def roundingInterval (m : Nat) (q : Int) : Nat × Nat :=
  (if m = 0x10000000000000 ∧ Binary.leastExponent < q then 4 * m - 1 else 4 * m - 2, 4 * m + 2)

/-- The multiple of `10 ^ k` that rounds to `m * 2 ^ q` and is nearest to it, if there is one; of two
equally near the even one. -/
def gridPoint? (m : Nat) (q k : Int) : Option Nat :=
  let (a, b) := powerFraction 2 (q - 2)
  let (p, r) := powerFraction 10 k
  let unit := a * r
  let cell := b * p
  let (lo, hi) := roundingInterval m q
  let inside (c : Nat) : Bool :=
    if m % 2 = 0 then lo * unit ≤ c * cell && c * cell ≤ hi * unit
    else lo * unit < c * cell && c * cell < hi * unit
  let c := 4 * m * unit / cell
  let rest := 4 * m * unit - c * cell
  let upFirst := cell < 2 * rest ∨ (cell = 2 * rest ∧ c % 2 = 1)
  let (first, second) := if upFirst then (c + 1, c) else (c, c + 1)
  if inside first then some first else if inside second then some second else none

/-- The decimal exponent of the first digit of `m * 2 ^ q`. Four hundred places are enough to reach
the first digit of every number. -/
def leadingExponent (m : Nat) (q : Int) : Int :=
  let (a, b) := powerFraction 2 q
  (Nat.toDigits 10 (m * a * Nat.pow 10 400 / b)).length - 401

/-- The first grid with a point among those that give `n`, `n + 1`, … digits, `left` of them. -/
def firstGrid? (m : Nat) (q e : Int) : (n left : Nat) → Option (Nat × Int)
  | _, 0 => none
  | n, left + 1 =>
    let k := e - n + 1
    match gridPoint? m q k with
    | some c => some (c, k)
    | none => firstGrid? m q e (n + 1) left

/-- A decimal number: its digits without zeros at the end, and where the decimal point stands,
counted from before the first digit. -/
structure Decimal where
  digits : List Char
  point : Int
deriving DecidableEq, Repr

/-- The decimal `c * 10 ^ k`. -/
def Decimal.ofScaled (c : Nat) (k : Int) : Decimal :=
  let ds := Nat.toDigits 10 c
  { digits := (ds.reverse.dropWhile (· = '0')).reverse, point := ds.length + k }

/-- The shortest decimal that rounds to `m * 2 ^ q`; seventeen digits are always enough. -/
def Decimal.shortest (m : Nat) (q : Int) : Decimal :=
  if m = 0 then ⟨[], 0⟩
  else
    match firstGrid? m q (leadingExponent m q) 1 17 with
    | some (c, k) => Decimal.ofScaled c k
    | none => ⟨[], 0⟩

/-- The decimal exponent of the first digit. -/
def Decimal.exponent (d : Decimal) : Int := d.point - 1

/-- Digits before and after the decimal point, with all zeros between. -/
def Decimal.positional (d : Decimal) : List Char :=
  let whole := d.digits.take d.point.toNat
  let fraction := d.digits.drop d.point.toNat
  (if d.point ≤ 0 then ['0'] else whole ++ List.replicate (d.point.toNat - whole.length) '0') ++
    (if fraction = [] then [] else '.' :: List.replicate (-d.point).toNat '0' ++ fraction)

/-- One digit before the decimal point, and the exponent in two digits at least. -/
def Decimal.scientific (d : Decimal) : List Char :=
  let e := Nat.toDigits 10 d.exponent.natAbs
  d.digits.take 1 ++ (if d.digits.length ≤ 1 then [] else '.' :: d.digits.drop 1) ++
    ['e', if d.exponent < 0 then '-' else '+'] ++ List.replicate (2 - e.length) '0' ++ e

/-- A number as text: positionally where `positional` holds of the exponent of the first digit. -/
def realText (positional : Int → Bool) (x : Float) : String :=
  match Binary.ofFloat x with
  | .nan => "NaN"
  | .infinite negative => if negative then "-Inf" else "+Inf"
  | .finite negative m q =>
    let d := Decimal.shortest m q
    let body := if positional d.exponent then d.positional else d.scientific
    String.ofList (if negative then '-' :: body else body)

end Codel
