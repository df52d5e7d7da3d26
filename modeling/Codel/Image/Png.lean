import Codel.Image.Inflate
import Codel.Image.Raster
import Codel.Text.Integer

namespace Codel.Png

/-- Why a file is no picture in this format. -/
inductive Fault where
  | truncated
  | malformed (text : String)
  | unsupported (text : String)
  | compression (cause : Inflate.Fault)
deriving DecidableEq, Repr

def Fault.message : Fault → String
  | truncated => "unexpected EOF"
  | malformed text => "png: invalid format: " ++ text
  | unsupported text => "png: unsupported feature: " ++ text
  | compression cause => cause.message

def signature : Bytes := [0x89, 0x50, 0x4e, 0x47, 0x0d, 0x0a, 0x1a, 0x0a]

/-- How the samples of a pixel are to be read. -/
inductive ColourType where
  | gray
  | rgb
  | palette
  | grayAlpha
  | rgba
deriving DecidableEq, Repr

def ColourType.ofCode? : Nat → Option ColourType
  | 0 => some gray
  | 2 => some rgb
  | 3 => some palette
  | 4 => some grayAlpha
  | 6 => some rgba
  | _ => none

def ColourType.samples : ColourType → Nat
  | gray => 1
  | rgb => 3
  | palette => 1
  | grayAlpha => 2
  | rgba => 4

def ColourType.depths : ColourType → List Nat
  | gray => [1, 2, 4, 8, 16]
  | palette => [1, 2, 4, 8]
  | _ => [8, 16]

/-- Size and pixel form. -/
structure Header where
  width : Nat
  height : Nat
  depth : Nat
  colours : ColourType
deriving DecidableEq, Repr

def Header.bitsPerPixel (h : Header) : Nat := h.depth * h.colours.samples

/-- The bytes of a row, its filter apart. -/
def Header.rowSize (h : Header) : Nat := (h.width * h.bitsPerPixel + 7) / 8

/-- The distance to the neighbour on the left in bytes. -/
def Header.stride (h : Header) : Nat := (h.bitsPerPixel + 7) / 8

/-- Length and kind of the chunk at the front, and what follows. -/
def chunkStart (bs : Bytes) : Except Fault (Nat × Bytes × Bytes) :=
  if bs.length < 8 then .error .truncated
  else .ok (Bytes.toNatBig (bs.take 4), (bs.drop 4).take 4, bs.drop 8)

/-- Data of a chunk of known length, and what follows. -/
def chunkData (length : Nat) (bs : Bytes) : Except Fault (Bytes × Bytes) :=
  if bs.length < length then .error .truncated else .ok (bs.take length, bs.drop length)

/-- What follows a chunk's checksum, which has to be right. -/
def verify (kind data bs : Bytes) : Except Fault Bytes :=
  if bs.length < 4 then .error .truncated
  else if Bytes.toNatBig (bs.take 4) ≠ (crc32 (kind ++ data)).toNat then
    .error (.malformed "invalid checksum")
  else .ok (bs.drop 4)

/-- What follows a chunk of known length and kind, its checksum being right. -/
def passChunk (length : Nat) (kind bs : Bytes) : Except Fault Bytes := do
  let (data, rest) ← chunkData length bs
  verify kind data rest

/-- The number of pixels from which on a picture is too large, eight bytes being set aside for each. -/
def mostPixels : Nat := 1 <<< 60

def readHeader (data : Bytes) : Except Fault Header :=
  let width := Bytes.toNatBig (data.take 4)
  let height := Bytes.toNatBig ((data.drop 4).take 4)
  match (data.drop 8).map UInt8.toNat with
  | [depth, type, compression, filter, interlace] =>
    if compression ≠ 0 then .error (.unsupported "compression method")
    else if filter ≠ 0 then .error (.unsupported "filter method")
    else if 1 < interlace then .error (.malformed "invalid interlace method")
    else if width = 0 ∨ height = 0 ∨ 0x80000000 ≤ width ∨ 0x80000000 ≤ height then
      .error (.malformed "non-positive dimension")
    else if mostPixels ≤ width * height then .error (.unsupported "dimension overflow")
    else
      let refused := Fault.unsupported
        ("bit depth " ++ decimalText depth ++ ", color type " ++ decimalText type)
      match ColourType.ofCode? type with
      | none => .error refused
      | some colours =>
        if ¬ colours.depths.contains depth then .error refused
        else if interlace = 1 then .error (.unsupported "interlacing")
        else .ok ⟨width, height, depth, colours⟩
  | _ => .error (.malformed "bad IHDR length")

/-- What is known before the rows. -/
structure Preamble where
  header : Header
  /-- Red, green and blue of the palette. -/
  palette : Array Rgb := #[]
  /-- The opacity of the first palette entries. -/
  opacity : Array UInt8 := #[]
  /-- The samples that mean a transparent pixel. -/
  transparent : Option (List Nat) := none

def paletteEntries : Bytes → List Rgb
  | r :: g :: b :: rest => ⟨r, g, b⟩ :: paletteEntries rest
  | _ => []

/-- Groups bytes into 16-bit samples. -/
def wideSamples : Bytes → List Nat
  | a :: b :: rest => (a.toNat * 256 + b.toNat) :: wideSamples rest
  | _ => []

/-- Whether a palette may take so many bytes. -/
def Header.admitsPalette (h : Header) (length : Nat) : Bool :=
  let n := length / 3
  length % 3 = 0 && 0 < n && n ≤ 256 && n ≤ 1 <<< h.depth

def Preamble.addPalette (p : Preamble) (data : Bytes) : Except Fault Preamble :=
  match p.header.colours with
  | .palette => .ok { p with palette := (paletteEntries data).toArray }
  | .rgb | .rgba => .ok p
  | _ => .error (.malformed "PLTE, color type mismatch")

/-- Refuses a transparency chunk that does not fit the pixels. -/
def Header.checkTransparency (h : Header) (length : Nat) : Except Fault Unit :=
  let fits (b : Bool) : Except Fault Unit := if b then .ok () else .error (.malformed "bad tRNS length")
  match h.colours with
  | .gray => fits (length = 2)
  | .rgb => fits (length = 6)
  | .palette => fits (length ≤ 256)
  | _ => .error (.malformed "tRNS, color type mismatch")

def Preamble.addTransparency (p : Preamble) (data : Bytes) : Preamble :=
  match p.header.colours with
  | .palette => { p with opacity := data.toArray }
  | _ => { p with transparent := some (wideSamples data) }

/-- Of the neighbours left, above and left above, the one nearest to left plus above less the
third. -/
def paeth (a b c : Nat) : Nat :=
  let p : Int := (a : Int) + b - c
  let pa := (p - a).natAbs
  let pb := (p - b).natAbs
  let pc := (p - c).natAbs
  if pa ≤ pb ∧ pa ≤ pc then a else if pb ≤ pc then b else c

/-- What a filter adds to a byte, from the bytes left, above and left above; none for a filter that
does not exist. -/
def predicted? (filter : Nat) (a b c : Nat) : Option Nat :=
  match filter with
  | 0 => some 0
  | 1 => some a
  | 2 => some b
  | 3 => some ((a + b) / 2)
  | 4 => some (paeth a b c)
  | _ => none

/-- Undoes the filter of a row, `above` being the row before it; bytes it does not have are zero. -/
def unfilter (stride filter : Nat) (above : Array UInt8) (row : List UInt8) : Option (Array UInt8) :=
  row.foldlM (fun out v => do
    let i := out.size
    let left (bs : Array UInt8) : Nat := if i < stride then 0 else (bs[i - stride]?.getD 0).toNat
    let p ← predicted? filter (left out) (above[i]?.getD 0).toNat (left above)
    return out.push (v + p.toUInt8)) #[]

/-- Undoes the filters of `n` rows. -/
def rows (h : Header) (data : Array UInt8) :
    (n : Nat) → (start : Nat) → (above : Array UInt8) → Except Fault (List (Array UInt8))
  | 0, _, _ => .ok []
  | n + 1, start, above =>
    let bytes := data.extract start (start + 1 + h.rowSize)
    if bytes.size < 1 + h.rowSize then .error (.malformed "not enough pixel data")
    else
      match unfilter h.stride (bytes[0]?.getD 0).toNat above (bytes.toList.drop 1) with
      | none => .error (.malformed "bad filter type")
      | some row => do
        let more ← rows h data n (start + 1 + h.rowSize) row
        return row :: more

/-- A sample of a row, samples of less than a byte being packed from the highest bit down. -/
def sample (depth : Nat) (row : Array UInt8) (i : Nat) : Nat :=
  if depth = 16 then (row[2 * i]?.getD 0).toNat * 256 + (row[2 * i + 1]?.getD 0).toNat
  else
    let bit := i * depth
    (row[bit / 8]?.getD 0).toNat >>> (8 - depth - bit % 8) % (1 <<< depth)

/-- The pixel of its samples. -/
def Preamble.pixel (p : Preamble) (vs : List Nat) : Pixel :=
  let depth := p.header.depth
  let wide := depth = 16
  let clear : Bool := p.transparent = some vs
  match p.header.colours, vs with
  | .gray, [y] =>
    if wide then
      if p.transparent.isSome then
        .straight16 y.toUInt16 y.toUInt16 y.toUInt16 (if clear then 0 else 0xffff)
      else .gray16 y.toUInt16
    else .gray (y * (255 / (1 <<< depth - 1))).toUInt8
  | .rgb, [r, g, b] =>
    if wide then
      if p.transparent.isSome then
        .straight16 r.toUInt16 g.toUInt16 b.toUInt16 (if clear then 0 else 0xffff)
      else .premultiplied16 r.toUInt16 g.toUInt16 b.toUInt16 0xffff
    else .straight r.toUInt8 g.toUInt8 b.toUInt8 0xff
  | .palette, [i] =>
    let v := p.palette[i]?.getD ⟨0, 0, 0⟩
    .straight v.red v.green v.blue (p.opacity[i]?.getD 0xff)
  | .grayAlpha, [y, a] =>
    if wide then .straight16 y.toUInt16 y.toUInt16 y.toUInt16 a.toUInt16
    else .straight y.toUInt8 y.toUInt8 y.toUInt8 a.toUInt8
  | .rgba, [r, g, b, a] =>
    if wide then .straight16 r.toUInt16 g.toUInt16 b.toUInt16 a.toUInt16
    else .straight r.toUInt8 g.toUInt8 b.toUInt8 a.toUInt8
  | _, _ => .straight 0 0 0 0

def Preamble.rowPixels (p : Preamble) (row : Array UInt8) : List Pixel :=
  let n := p.header.colours.samples
  (List.range p.header.width).map fun x =>
    p.pixel ((List.range n).map fun k => sample p.header.depth row (n * x + k))

/-- Compressed data, part by part as it lies in chunks. -/
structure Stream where
  parts : List Bytes
  /-- Whether the file ends inside the last part. -/
  cut : Bool
  /-- The fault that meets whoever wants more data. -/
  shortage : Fault

/-- The kind of chunks that hold compressed data. -/
def dataKind : Bytes := [0x49, 0x44, 0x41, 0x54]

/-- The compressed data at the front: that of the chunk under way and of the data chunks that follow
at once. A file that ends early yields what it has. -/
def gather : (fuel : Nat) → (length : Nat) → Bytes → Stream
  | 0, _, _ => ⟨[], false, .truncated⟩
  | fuel + 1, length, bs =>
    let data := bs.take length
    match passChunk length dataKind bs with
    | .error e => ⟨[data], bs.length < length, e⟩
    | .ok rest =>
      match chunkStart rest with
      | .error e => ⟨[data], false, e⟩
      | .ok (next, kind, rest) =>
        if kind = dataKind then
          let more := gather fuel next rest
          { more with parts := data :: more.parts }
        else ⟨[data], false, .malformed "not enough pixel data"⟩

/-- Whether the first `n` bytes reach into a part that the file does not hold to its end. -/
def Stream.reachesCut (s : Stream) (n : Nat) : Bool :=
  s.cut && s.parts.dropLast.flatten.length < n

/-- The fault of rows that were not all there. -/
def shortFault (shortage : Fault) : Fault :=
  if shortage = .truncated then .malformed "not enough pixel data" else shortage

/-- What is wrong after the last row, `needed` bytes having gone into rows and `used` bytes of the
stream having been read. One byte left over may come with the fault that follows it; two may not, nor
may one that was handed over before. -/
def Stream.endFault? (s : Stream) (needed used : Nat) (p : Inflate.Progress) : Option Fault :=
  let tooMuch := Fault.malformed "too much pixel data"
  if needed + 1 < p.out.size ∨ needed < p.out.size ∧ p.isHandedOver then some tooMuch
  else
    match p.fault with
    | some .truncated => some (.malformed s.shortage.message)
    | some cause => some (.malformed cause.message)
    | none => if needed < p.out.size ∨ s.reachesCut used then some tooMuch else none

/-- The picture in a stream. -/
def Preamble.picture (p : Preamble) (s : Stream) : Except Fault Raster :=
  let h := p.header
  match Inflate.unframe s.parts.flatten.toArray with
  | none => .error s.shortage
  | some (start, progress) =>
    match progress.fault with
    | some .frame => .error (.compression .frame)
    | some .dictionary => .error (.compression .dictionary)
    | fault =>
      match rows h progress.out h.height 0 #[], fault with
      | .error (.malformed "not enough pixel data"), some .truncated =>
        .error (shortFault s.shortage)
      | .error (.malformed "not enough pixel data"), some cause => .error (.compression cause)
      | .error e, _ => .error e
      | .ok lines, _ =>
        match s.endFault? (h.height * (1 + h.rowSize)) (start + progress.here.taken) progress with
        | some e => .error e
        | none => .ok (Raster.ofArray 0 0 h.width h.height (lines.flatMap p.rowPixels).toArray)

/-- How far a file has been read. -/
inductive Stage where
  | start
  | header (p : Preamble)
  | palette (p : Preamble)
  | transparency (p : Preamble)
  | picture (r : Raster)

/-- What a preamble's stage knows. -/
def Stage.preamble? : Stage → Option Preamble
  | header p | palette p | transparency p => some p
  | _ => none

def outOfOrder : Fault := .malformed "chunk out of order"

def Stage.takesTransparency : Stage → Bool
  | header p => p.header.colours ≠ .palette
  | palette p => p.header.colours = .palette || p.header.colours = .rgb
  | _ => false

def Stage.takesData : Stage → Bool
  | header p => p.header.colours ≠ .palette
  | palette _ | transparency _ => true
  | _ => false

/-- Passes over a chunk of known length and kind. -/
def skipChunk (length : Nat) (kind bs : Bytes) : Except Fault Bytes :=
  if 0x7fffffff < length then
    .error (.malformed ("Bad chunk length: " ++ decimalText length))
  else passChunk length kind bs

/-- Reads chunks to the last one. Every chunk takes at least twelve bytes. -/
def chunks : (fuel : Nat) → Stage → Bytes → Except Fault Raster
  | 0, _, _ => .error .truncated
  | fuel + 1, stage, bs => do
    let (length, kind, body) ← chunkStart bs
    if kind = [0x49, 0x48, 0x44, 0x52] then
      match stage with
      | .start =>
        if length ≠ 13 then .error (.malformed "bad IHDR length")
        else if body.length < 13 then .error .truncated
        else
          let h ← readHeader (body.take 13)
          chunks fuel (.header { header := h }) (← passChunk length kind body)
      | _ => .error outOfOrder
    else if kind = [0x50, 0x4c, 0x54, 0x45] then
      match stage with
      | .header p =>
        if ¬ p.header.admitsPalette length then .error (.malformed "bad PLTE length")
        else
          let (data, rest) ← chunkData length body
          let p ← p.addPalette data
          chunks fuel (.palette p) (← verify kind data rest)
      | _ => .error outOfOrder
    else if kind = [0x74, 0x52, 0x4e, 0x53] then
      match stage.takesTransparency, stage.preamble? with
      | true, some p =>
        p.header.checkTransparency length
        let (data, rest) ← chunkData length body
        chunks fuel (.transparency (p.addTransparency data)) (← verify kind data rest)
      | _, _ => .error outOfOrder
    else if kind = dataKind then
      match stage with
      | .picture r => chunks fuel (.picture r) (← skipChunk length kind body)
      | _ =>
        match stage.takesData, stage.preamble? with
        | true, some p =>
          let r ← p.picture (gather (fuel + 1) length body)
          chunks fuel (.picture r) (← passChunk length kind body)
        | _, _ => .error outOfOrder
    else if kind = [0x49, 0x45, 0x4e, 0x44] then
      match stage with
      | .picture r =>
        if length ≠ 0 then .error (.malformed "bad IEND length")
        else
          let _ ← passChunk length kind body
          return r
      | _ => .error outOfOrder
    else chunks fuel stage (← skipChunk length kind body)

/-- Reads a file that begins with the signature. -/
def decode (bs : Bytes) : Except Fault Raster := chunks bs.length .start (bs.drop 8)

end Codel.Png
