import Codel.Text.Quoted
import Codel.Text.Integer

namespace Codel

structure RunId where
  value : BitVec 128
deriving DecidableEq, Repr

inductive RunIdFault where
  | length (text : Bytes)
  | format (text : Bytes)
  | digit (byte : UInt8)
  | version
deriving DecidableEq, Repr

/-- A code point as `U+` and at least four hexadecimal digits, with the character if printable. -/
def codePointText (c : Char) : String :=
  "U+" ++ String.ofList ((hexPadded 4 c.toNat).map Char.toUpper) ++
    (if isPrintable c then " '" ++ c.toString ++ "'" else "")

def RunIdFault.message : RunIdFault → String
  | length text =>
    "Parse run id: uuid: incorrect UUID length " ++ decimalText text.length ++ " in string " ++
      quotedBytes text
  | format text => "Parse run id: uuid: incorrect UUID format in string " ++ quotedBytes text
  | digit b => "Parse run id: encoding/hex: invalid byte: " ++ codePointText (Char.ofNat b.toNat)
  | version => "Invalid uuid version"

namespace RunId

/-- The identifier that belongs to no run. -/
def nil : RunId := ⟨0⟩

def isValid (r : RunId) : Bool := r ≠ nil

def version (r : RunId) : Nat := (r.value.toNat >>> 76) % 16

/-- The 32 hexadecimal digits in groups. -/
def text (r : RunId) : String :=
  let ds := hexPadded 32 r.value.toNat
  let group (start count : Nat) : String := String.ofList ((ds.drop start).take count)
  "-".intercalate [group 0 8, group 8 4, group 12 4, group 16 4, group 20 12]

/-- Reads hexadecimal digits onto `n`. -/
def readHex : (n : Nat) → Bytes → Except RunIdFault Nat
  | n, [] => .ok n
  | n, b :: bs =>
    match hexValue? (Char.ofNat b.toNat) with
    | some d => readHex (16 * n + d) bs
    | none => .error (.digit b)

/-- Reads 32 digits, or 36 bytes with dashes between the groups. -/
def readPlain (bs : Bytes) : Except RunIdFault RunId :=
  if bs.length = 36 then
    if [8, 13, 18, 23].all fun i => bs[i]? = some 45 then
      (readHex 0 (bs.take 8 ++ (bs.drop 9).take 4 ++ (bs.drop 14).take 4 ++ (bs.drop 19).take 4 ++
        bs.drop 24)).map fun n => ⟨BitVec.ofNat 128 n⟩
    else .error (.format bs)
  else (readHex 0 bs).map fun n => ⟨BitVec.ofNat 128 n⟩

/-- Reads any of the written forms, told apart by their length. -/
def read (bs : Bytes) : Except RunIdFault RunId :=
  let n := bs.length
  if n = 32 ∨ n = 36 then readPlain bs
  else if n = 34 ∨ n = 38 then
    if bs.head? = some 123 ∧ bs.getLast? = some 125 then readPlain ((bs.drop 1).dropLast)
    else .error (.format bs)
  else if n = 41 ∨ n = 45 then
    if bs.take 9 = Bytes.ofString "urn:uuid:" then readPlain (bs.drop 9) else .error (.format bs)
  else .error (.length bs)

/-- Reads an identifier of version 4. -/
def parse (s : String) : Except RunIdFault RunId :=
  match read (Bytes.ofString s) with
  | .error e => .error e
  | .ok r => if r.version = 4 then .ok r else .error .version

/-- The identifier of version 4 with the remaining bits taken from `seed`. -/
def ofSeed (seed : Nat) : RunId :=
  let high := (seed >>> 74) % 0x1000000000000
  let mid := (seed >>> 62) % 0x1000
  let low := seed % 0x4000000000000000
  ⟨BitVec.ofNat 128 (high <<< 80 + 4 <<< 76 + mid <<< 64 + 2 <<< 62 + low)⟩

end RunId

end Codel
