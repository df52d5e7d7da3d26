import Codel.Text.Bytes

namespace Codel

/-- One bit of the redundancy check, the polynomial being read from the lowest bit up. -/
def crcBit (c : UInt32) : UInt32 := if c &&& 1 = 1 then (0xedb88320 : UInt32) ^^^ (c >>> 1) else c >>> 1

def crcByte (c : UInt32) (b : UInt8) : UInt32 := Nat.repeat crcBit 8 (c ^^^ b.toUInt32)

/-- The 32-bit cyclic redundancy check of a byte string. -/
def crc32 (bs : Bytes) : UInt32 := (bs.foldl crcByte 0xffffffff) ^^^ 0xffffffff

/-- The sum of all bytes plus one, and the sum of all its intermediate values, modulo 65521. -/
def adlerSums (bs : Array UInt8) : Nat × Nat :=
  bs.foldl (fun (a, b) v =>
    let a := (a + v.toNat) % 65521
    (a, (b + a) % 65521)) (1, 0)

def adler32 (bs : Array UInt8) : Nat :=
  let (a, b) := adlerSums bs
  b * 65536 + a

end Codel
