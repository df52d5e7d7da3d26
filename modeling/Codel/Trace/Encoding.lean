import Codel.Text.Integer
import Codel.Trace.Record

namespace Codel.Trace

/-- A tag byte and `n` in `width` bytes after it. -/
def tagged (tag : UInt8) (width n : Nat) : Bytes := tag :: Bytes.ofNatBig width n

def encodeInt (v : Int64) : Bytes :=
  let n := v.toInt
  if 0 ≤ n then
    let m := n.toNat
    if m < 0x80 then [UInt8.ofNat m]
    else if m < 0x100 then tagged 0xcc 1 m
    else if m < 0x10000 then tagged 0xcd 2 m
    else if m < 0x100000000 then tagged 0xce 4 m
    else tagged 0xcf 8 m
  else if -32 ≤ n then [UInt8.ofNat (256 + n).toNat]
  else if -0x80 ≤ n then tagged 0xd0 1 (0x100 + n).toNat
  else if -0x8000 ≤ n then tagged 0xd1 2 (0x10000 + n).toNat
  else if -0x80000000 ≤ n then tagged 0xd2 4 (0x100000000 + n).toNat
  else tagged 0xd3 8 (0x10000000000000000 + n).toNat

/-- A text: its length and its bytes. -/
def encodeText (bs : Bytes) : Bytes :=
  let n := bs.length
  (if n < 32 then [UInt8.ofNat (0xa0 + n)]
    else if n < 0x100 then tagged 0xd9 1 n
    else if n < 0x10000 then tagged 0xda 2 n
    else tagged 0xdb 4 n) ++ bs

/-- A list of integers, or the mark of a missing one. -/
def encodeStack : Option (List Int64) → Bytes
  | none => [0xc0]
  | some vs =>
    let n := vs.length
    (if n < 16 then [UInt8.ofNat (0x90 + n)]
      else if n < 0x10000 then tagged 0xdc 2 n
      else tagged 0xdd 4 n) ++ vs.flatMap encodeInt

def encodeKey (name : String) : Bytes := encodeText (Bytes.ofString name)

def Header.encode (h : Header) : Bytes :=
  0x85 :: encodeKey "run" ++ encodeText h.run ++ encodeKey "program" ++ encodeText h.program ++
    encodeKey "width" ++ encodeInt h.width ++ encodeKey "height" ++ encodeInt h.height ++
    encodeKey "codel_size" ++ encodeInt h.codelSize

def Step.encode (s : Step) : Bytes :=
  0x89 :: encodeKey "step" ++ encodeInt s.step ++ encodeKey "x" ++ encodeInt s.x ++
    encodeKey "y" ++ encodeInt s.y ++ encodeKey "color" ++ encodeText s.colour ++
    encodeKey "opcode" ++ encodeText s.op ++ encodeKey "block_size" ++ encodeInt s.blockSize ++
    encodeKey "dp" ++ encodeText s.dp ++ encodeKey "cc" ++ encodeText s.cc ++
    encodeKey "stack" ++ encodeStack s.stack

/-- Why a record was not written: the sink's failure at the header or at a step. -/
inductive WriteFailure where
  | header (cause : String)
  | step (n : Int64) (cause : String)
deriving DecidableEq, Repr

def WriteFailure.message : WriteFailure → String
  | header cause => "Header, " ++ cause ++ ": Trace encode"
  | step n cause => "Step " ++ wordText n ++ ", " ++ cause ++ ": Trace encode"

end Codel.Trace

namespace Codel

def Trace.encode (t : Trace) : Bytes := t.header.encode ++ t.steps.flatMap Trace.Step.encode

end Codel
