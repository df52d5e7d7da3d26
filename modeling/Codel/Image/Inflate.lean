import Codel.Image.Checksum

namespace Codel.Inflate

/-- Why compressed data could not be undone. -/
inductive Fault where
  | truncated
  | corrupt (offset : Nat)
  | frame
  | dictionary
  | checksum
deriving DecidableEq, Repr

def Fault.message : Fault → String
  | truncated => "unexpected EOF"
  | corrupt offset => "flate: corrupt input before offset " ++ toString offset
  | frame => "zlib: invalid header"
  | dictionary => "zlib: invalid dictionary"
  | checksum => "zlib: invalid checksum"

/-- Bits are taken from each byte from the lowest up; `pos` counts bits. -/
def bitAt? (data : Array UInt8) (pos : Nat) : Option Nat :=
  (data[pos / 8]?).map fun b => (b.toNat >>> (pos % 8)) % 2

/-- A number of `n` bits, the lowest first. -/
def bits? (data : Array UInt8) (pos : Nat) : (n : Nat) → Option Nat
  | 0 => some 0
  | n + 1 => do
    let low ← bits? data pos n
    let b ← bitAt? data (pos + n)
    return low + b <<< n

/-- Where reading stands: the next bit, and how many bytes have been taken in to get there. -/
structure Cursor where
  pos : Nat := 0
  taken : Nat := 0

/-- The cursor when `n` bits are at hand; bytes are taken in one by one as they are wanted. -/
def Cursor.reserve (here : Cursor) (data : Array UInt8) (n : Nat) : Except Fault Cursor :=
  let taken := max here.taken ((here.pos + n + 7) / 8)
  if data.size < taken then .error .truncated else .ok { here with taken := taken }

/-- The fault of data that cannot be right. -/
def Cursor.corrupt (here : Cursor) : Fault := .corrupt here.taken

/-- A number of `n` bits and where reading stands after it. -/
def takeBits (data : Array UInt8) (here : Cursor) (n : Nat) : Except Fault (Nat × Cursor) := do
  let here ← here.reserve data n
  return ((bits? data here.pos n).getD 0, { here with pos := here.pos + n })

/-- A prefix code: how many codes have each length, and the symbols by length and value. -/
structure Code where
  counts : Array Nat
  symbols : Array Nat
  /-- The bits that have to be at hand before a symbol is looked for. -/
  least : Nat
  /-- The bits of the longest code. -/
  longest : Nat

def maxLength : Nat := 15

/-- The code whose symbols have the given lengths, zero for symbols not in it. The shortest code has
to be at hand for a symbol. -/
def Code.ofLengths (lengths : List Nat) : Code where
  counts := ((List.range (maxLength + 1)).map fun n =>
    if n = 0 then 0 else lengths.count n).toArray
  symbols := ((List.range maxLength).flatMap fun n =>
    (lengths.zipIdx.filter fun e => e.1 = n + 1).map Prod.snd).toArray
  least := (lengths.filter (· ≠ 0)).min?.getD 0
  longest := lengths.max?.getD 0

def endOfBlock : Nat := 256

/-- The code of literals and lengths. Every block has its end still to come, so as many bits as the
end takes have to be at hand for any symbol. -/
def Code.ofLiterals (lengths : List Nat) : Code :=
  let c := Code.ofLengths lengths
  { c with least := max c.least (lengths[endOfBlock]?.getD 0) }

/-- The number of bit strings of the full length that stay free, negative if too many are used. -/
def Code.free (c : Code) : Int :=
  (List.range (maxLength + 1)).foldl
    (fun (left : Int) n => if n = 0 then 1 else 2 * left - (c.counts[n]?.getD 0 : Nat)) 1

/-- Whether the code is empty, complete, or the single code of one bit. -/
def Code.isUsable (c : Code) : Bool :=
  c.symbols.isEmpty || c.free = 0 || (c.symbols.size = 1 && c.counts[1]?.getD 0 = 1)

/-- Reads bits until they form a code; `first` and `index` are value and place of the first code of
the length under way. -/
def Code.readFrom (c : Code) (data : Array UInt8) (taken : Nat) :
    (left : Nat) → (pos code first index length : Nat) → Except Fault (Nat × Cursor)
  | 0, _, _, _, _, _ => .error (.corrupt taken)
  | left + 1, pos, code, first, index, length =>
    match bitAt? data pos with
    | none => .error .truncated
    | some b =>
      let code := code + b
      let count := c.counts[length]?.getD 0
      if code < first + count then
        .ok (c.symbols[index + (code - first)]?.getD 0, ⟨pos + 1, max taken (pos / 8 + 1)⟩)
      else
        c.readFrom data taken left (pos + 1) (2 * code) (2 * (first + count)) (index + count)
          (length + 1)

def Code.read (c : Code) (data : Array UInt8) (here : Cursor) : Except Fault (Nat × Cursor) := do
  let here ← here.reserve data c.least
  c.readFrom data here.taken c.longest here.pos 0 0 0 1

/-- Base lengths of repetitions and their extra bits. -/
def lengthTable : Array (Nat × Nat) := #[
  (3, 0), (4, 0), (5, 0), (6, 0), (7, 0), (8, 0), (9, 0), (10, 0), (11, 1), (13, 1), (15, 1),
  (17, 1), (19, 2), (23, 2), (27, 2), (31, 2), (35, 3), (43, 3), (51, 3), (59, 3), (67, 4),
  (83, 4), (99, 4), (115, 4), (131, 5), (163, 5), (195, 5), (227, 5), (258, 0)]

/-- Base distances of repetitions and their extra bits. -/
def distanceTable : Array (Nat × Nat) := #[
  (1, 0), (2, 0), (3, 0), (4, 0), (5, 1), (7, 1), (9, 2), (13, 2), (17, 3), (25, 3), (33, 4),
  (49, 4), (65, 5), (97, 5), (129, 6), (193, 6), (257, 7), (385, 7), (513, 8), (769, 8),
  (1025, 9), (1537, 9), (2049, 10), (3073, 10), (4097, 11), (6145, 11), (8193, 12), (12289, 12),
  (16385, 13), (24577, 13)]

/-- Appends `length` bytes that stand `distance` before the end. -/
def repeatBack (distance : Nat) : (length : Nat) → Array UInt8 → Array UInt8
  | 0, out => out
  | length + 1, out => repeatBack distance length (out.push (out[out.size - distance]?.getD 0))

/-- What was put out so far, where reading stands, and a fault if there was one. -/
structure Progress where
  out : Array UInt8 := #[]
  here : Cursor := {}
  fault : Option Fault := none
  /-- How much had been put out at the last empty stored block, which hands over all there is. -/
  flushed : Nat := 0

/-- The number of bytes kept to repeat from; whenever so many more are there they are handed over. -/
def windowSize : Nat := 32768

/-- Whether all that was put out was handed over before the data went on. -/
def Progress.isHandedOver (p : Progress) : Bool :=
  p.flushed = p.out.size || p.out.size % windowSize = 0

/-- The value of a table entry: its base and the extra bits that follow. -/
def extended (data : Array UInt8) (table : Array (Nat × Nat)) (i : Nat) (here : Cursor) :
    Except Fault (Nat × Cursor) :=
  match table[i]? with
  | none => .error here.corrupt
  | some (base, extra) => (takeBits data here extra).map fun (v, here) => (base + v, here)

/-- Length and distance of a repetition, the length's symbol having been read. -/
def repetition (data : Array UInt8) (distances : Code) (symbol : Nat) (here : Cursor) :
    Except Fault (Nat × Nat × Cursor) := do
  let (length, here) ← extended data lengthTable (symbol - 257) here
  let (d, here) ← distances.read data here
  let (distance, here) ← extended data distanceTable d here
  return (length, distance, here)

/-- Undoes coded symbols up to the end of the block. Every symbol takes at least one bit, so `fuel`
above the number of bits is enough. -/
def symbols (data : Array UInt8) (literals distances : Code) : (fuel : Nat) → Progress → Progress
  | 0, p => { p with fault := some .truncated }
  | fuel + 1, ⟨out, here, fault, flushed⟩ =>
    match literals.read data here with
    | .error e => ⟨out, here, some e, flushed⟩
    | .ok (s, here) =>
      if s < endOfBlock then
        symbols data literals distances fuel ⟨out.push s.toUInt8, here, fault, flushed⟩
      else if s = endOfBlock then ⟨out, here, fault, flushed⟩
      else
        match repetition data distances s here with
        | .error e => ⟨out, here, some e, flushed⟩
        | .ok (length, distance, here) =>
          if out.size < distance then ⟨out, here, some here.corrupt, flushed⟩
          else
            symbols data literals distances fuel ⟨repeatBack distance length out, here, fault, flushed⟩

def fixedLiterals : Code :=
  Code.ofLiterals (List.replicate 144 8 ++ List.replicate 112 9 ++ List.replicate 24 7 ++
    List.replicate 8 8)

def fixedDistances : Code := Code.ofLengths (List.replicate 32 5)

/-- The order in which the lengths of the code of code lengths are sent. -/
def lengthOrder : List Nat := [16, 17, 18, 0, 8, 7, 9, 6, 10, 5, 11, 4, 12, 3, 13, 2, 14, 1, 15]

/-- Reads `n` code lengths of three bits. -/
def plainLengths (data : Array UInt8) : (n : Nat) → Cursor → Except Fault (List Nat × Cursor)
  | 0, here => .ok ([], here)
  | n + 1, here => do
    let (v, here) ← takeBits data here 3
    let (vs, here) ← plainLengths data n here
    return (v :: vs, here)

/-- Reads code lengths until there are `n`; `done` holds those read so far, last first. -/
def codedLengths (data : Array UInt8) (c : Code) (n : Nat) :
    (fuel : Nat) → (done : List Nat) → Cursor → Except Fault (List Nat × Cursor)
  | 0, _, _ => .error .truncated
  | fuel + 1, done, here => do
    if done.length = n then return (done.reverse, here)
    else
      let (s, here) ← c.read data here
      if s < 16 then codedLengths data c n fuel (s :: done) here
      else
        let (value, base, extra) ← (match s, done with
          | 16, [] => .error here.corrupt
          | 16, last :: _ => .ok (last, 3, 2)
          | 17, _ => .ok (0, 3, 3)
          | _, _ => .ok (0, 11, 7) : Except Fault (Nat × Nat × Nat))
        let (more, here) ← takeBits data here extra
        if n < done.length + base + more then .error here.corrupt
        else codedLengths data c n fuel (List.replicate (base + more) value ++ done) here

/-- Reads the two codes of a block that brings its own. -/
def ownCodes (data : Array UInt8) (here : Cursor) : Except Fault (Code × Code × Cursor) := do
  let (literalCount, here) ← takeBits data here 5
  let (distanceCount, here) ← takeBits data here 5
  let (lengthCount, here) ← takeBits data here 4
  if 29 < literalCount ∨ 29 < distanceCount then .error here.corrupt
  else
    let (sent, here) ← plainLengths data (lengthCount + 4) here
    let order := lengthOrder.zip sent
    let c := Code.ofLengths ((List.range 19).map fun s =>
      ((order.find? fun e => e.1 = s).map Prod.snd).getD 0)
    if !c.isUsable then .error here.corrupt
    else
      let n := literalCount + 257
      let (lengths, here) ← codedLengths data c (n + distanceCount + 1) 400 [] here
      let literals := Code.ofLiterals (lengths.take n)
      let distances := Code.ofLengths (lengths.drop n)
      if literals.isUsable && distances.isUsable then return (literals, distances, here)
      else .error here.corrupt

/-- Copies a stored block that starts at the next whole byte. -/
def stored (data : Array UInt8) (p : Progress) : Progress :=
  let start := p.here.taken
  match takeBits data ⟨8 * start, start⟩ 16, takeBits data ⟨8 * start + 16, start + 2⟩ 16 with
  | .ok (n, _), .ok (check, here) =>
    if n + check ≠ 0xffff then { p with fault := some here.corrupt }
    else
      let bytes := data.extract (start + 4) (start + 4 + n)
      { out := p.out ++ bytes
        here := ⟨8 * (start + 4 + n), start + 4 + n⟩
        fault := if bytes.size < n then some .truncated else p.fault
        flushed := if n = 0 then p.out.size else p.flushed }
  | _, _ => { p with fault := some .truncated }

def block (data : Array UInt8) (kind : Nat) (p : Progress) : Progress :=
  match kind with
  | 0 => stored data p
  | 1 => symbols data fixedLiterals fixedDistances (8 * data.size + 1) p
  | 2 =>
    match ownCodes data p.here with
    | .error e => { p with fault := some e }
    | .ok (literals, distances, here) =>
      symbols data literals distances (8 * data.size + 1) { p with here := here }
  | _ => { p with fault := some p.here.corrupt }

/-- Undoes blocks up to the last one. Every block takes at least three bits. -/
def blocks (data : Array UInt8) : (fuel : Nat) → Progress → Progress
  | 0, p => { p with fault := some .truncated }
  | fuel + 1, ⟨out, here, fault, flushed⟩ =>
    match takeBits data here 3 with
    | .ok (head, here) =>
      let p := block data (head / 2) ⟨out, here, fault, flushed⟩
      if p.fault.isSome ∨ head % 2 = 1 then p else blocks data fuel p
    | .error e => ⟨out, here, some e, flushed⟩

/-- Undoes the blocks of framed data and compares the checksum that follows them. -/
def checked (data : Array UInt8) : Progress :=
  let p := blocks data (8 * data.size + 1) {}
  if p.fault.isSome then p
  else
    let start := p.here.taken
    let check := data.extract start (start + 4)
    if check.size < 4 then { p with fault := some .truncated }
    else if Bytes.toNatBig check.toList ≠ adler32 p.out then { p with fault := some .checksum }
    else { p with here := ⟨8 * (start + 4), start + 4⟩ }

/-- The checksum that names the dictionary without bytes. -/
def emptyDictionary : Bytes := [0, 0, 0, 1]

/-- Undoes framed data; none if it ends within the header. A fault of the header leaves no output; a
fault further on leaves what came before it. Places count from the end of the header, whose size
comes first. -/
def unframe (data : Array UInt8) : Option (Nat × Progress) :=
  match data[0]?, data[1]? with
  | some a, some b =>
    let n := a.toNat * 256 + b.toNat
    if a.toNat % 16 ≠ 8 ∨ 7 < a.toNat / 16 ∨ n % 31 ≠ 0 then some (2, { fault := some .frame })
    else if b.toNat / 32 % 2 = 0 then some (2, checked (data.extract 2 data.size))
    else if data.size < 6 then none
    else if (data.extract 2 6).toList ≠ emptyDictionary then
      some (6, { fault := some .dictionary })
    else some (6, checked (data.extract 6 data.size))
  | _, _ => none

end Codel.Inflate
