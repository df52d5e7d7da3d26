import Codel.Image.Raster

namespace Codel.Bmp

/-- Why a file is no picture in this format. -/
inductive Fault where
  | ended
  | truncated
  | unsupported
deriving DecidableEq, Repr

def Fault.message : Fault → String
  | ended => "EOF"
  | truncated => "unexpected EOF"
  | unsupported => "bmp: unsupported BMP image"

/-- Whether a file opens like a picture in this format. -/
def opens (bs : Bytes) : Bool :=
  10 ≤ bs.length && bs.take 2 = [0x42, 0x4d] && (bs.drop 6).take 4 = [0, 0, 0, 0]

/-- A number of `n` bytes at an offset. -/
def field (bs : Bytes) (offset n : Nat) : Nat := Bytes.toNatLittle ((bs.drop offset).take n)

/-- A 32-bit number in two's complement. -/
def signedField (bs : Bytes) (offset : Nat) : Int :=
  let n := field bs offset 4
  if n < 0x80000000 then n else (n : Int) - 0x100000000

inductive Form where
  | palette (entries : Array Pixel)
  | rgb
  | rgba (opaqueOnly : Bool)

def Form.bytesPerPixel : Form → Nat
  | palette _ => 1
  | rgb => 3
  | rgba _ => 4

def takeBytes (n : Nat) (bs : Bytes) : Except Fault (Bytes × Bytes) :=
  if n ≤ bs.length then .ok (bs.take n, bs.drop n)
  else if bs = [] then .error .ended
  else .error .truncated

/-- An end of the file inside the headers. -/
def inHeader {α : Type} : Except Fault α → Except Fault α
  | .error .ended => .error .truncated
  | r => r

/-- Groups bytes into palette entries: blue, green, red and one byte more. -/
def paletteEntries : Bytes → List Pixel
  | b :: g :: r :: _ :: rest => .premultiplied r g b 0xff :: paletteEntries rest
  | _ => []

def rowPixels (form : Form) : Bytes → List Pixel
  | [] => []
  | b :: rest =>
    match form, rest with
    | .palette entries, rest =>
      entries[b.toNat]?.getD (.premultiplied 0 0 0 0xff) :: rowPixels form rest
    | .rgb, g :: r :: rest => .premultiplied r g b 0xff :: rowPixels form rest
    | .rgba opaqueOnly, g :: r :: a :: rest =>
      .straight r g b (if opaqueOnly then 0xff else a) :: rowPixels form rest
    | _, _ => []

/-- Reads `n` rows in the order of the file. -/
def rows (form : Form) (width : Nat) : (n : Nat) → Bytes → Except Fault (List (List Pixel))
  | 0, _ => .ok []
  | n + 1, bs => do
    let used := form.bytesPerPixel * width
    let padding := (4 - used % 4) % 4
    let row ← (match form with
      | .rgb => takeBytes (used + padding) bs
      | _ => do
        let (row, rest) ← takeBytes used bs
        let (_, rest) ← takeBytes padding rest
        return (row, rest))
    let more ← rows form width n row.2
    return rowPixels form (row.1.take used) :: more

/-- Whether the channel masks of a longer header are the usual ones. -/
def usualMasks (bs : Bytes) : Bool :=
  field bs 54 4 = 0xff0000 && field bs 58 4 = 0xff00 && field bs 62 4 = 0xff &&
    field bs 66 4 = 0xff000000

def decode (bs : Bytes) : Except Fault Raster := do
  let (_, _) ← inHeader (takeBytes 18 bs)
  let start := field bs 10 4
  let infoSize := field bs 14 4
  if infoSize ≠ 40 ∧ infoSize ≠ 108 ∧ infoSize ≠ 124 then .error .unsupported
  else
    let (_, _) ← inHeader (takeBytes (infoSize - 4) (bs.drop 18))
    let width := signedField bs 18
    let height := signedField bs 22
    let depth := field bs 28 2
    let compression := if field bs 30 4 = 3 ∧ 40 < infoSize ∧ usualMasks bs then 0 else field bs 30 4
    if width < 0 ∨ field bs 26 2 ≠ 1 ∨ compression ≠ 0 then .error .unsupported
    else
      let body := bs.drop (14 + infoSize)
      let (form, body) ← (match depth with
        | 8 =>
          let used := if field bs 46 4 = 0 then 256 else field bs 46 4
          if 256 < used ∨ start ≠ 14 + infoSize + 4 * used then .error .unsupported
          else do
            let (entries, rest) ← takeBytes (4 * used) body
            return (.palette (paletteEntries entries).toArray, rest)
        | 24 => if start = 14 + infoSize then .ok (.rgb, body) else .error .unsupported
        | 32 =>
          if start = 14 + infoSize then .ok (.rgba (infoSize = 40), body) else .error .unsupported
        | _ => .error .unsupported : Except Fault (Form × Bytes))
      let w := width.toNat
      let h := height.natAbs
      let lines ← if w = 0 then .ok [] else rows form w h body
      let lines := if height < 0 then lines else lines.reverse
      return Raster.ofArray 0 0 w h lines.flatten.toArray

end Codel.Bmp
