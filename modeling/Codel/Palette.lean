import Codel.Colour
import Codel.Text.Bytes

namespace Codel

structure Rgb where
  red : UInt8
  green : UInt8
  blue : UInt8
deriving DecidableEq, Repr, Inhabited

/-- The palette in the order of colour indices. -/
def palette : List (Colour × Rgb) :=
  [(⟨0⟩, ⟨0xff, 0xc0, 0xc0⟩), (⟨1⟩, ⟨0xff, 0x00, 0x00⟩), (⟨2⟩, ⟨0xc0, 0x00, 0x00⟩),
    (⟨3⟩, ⟨0xff, 0xff, 0xc0⟩), (⟨4⟩, ⟨0xff, 0xff, 0x00⟩), (⟨5⟩, ⟨0xc0, 0xc0, 0x00⟩),
    (⟨6⟩, ⟨0xc0, 0xff, 0xc0⟩), (⟨7⟩, ⟨0x00, 0xff, 0x00⟩), (⟨8⟩, ⟨0x00, 0xc0, 0x00⟩),
    (⟨9⟩, ⟨0xc0, 0xff, 0xff⟩), (⟨10⟩, ⟨0x00, 0xff, 0xff⟩), (⟨11⟩, ⟨0x00, 0xc0, 0xc0⟩),
    (⟨12⟩, ⟨0xc0, 0xc0, 0xff⟩), (⟨13⟩, ⟨0x00, 0x00, 0xff⟩), (⟨14⟩, ⟨0x00, 0x00, 0xc0⟩),
    (⟨15⟩, ⟨0xff, 0xc0, 0xff⟩), (⟨16⟩, ⟨0xff, 0x00, 0xff⟩), (⟨17⟩, ⟨0xc0, 0x00, 0xc0⟩),
    (Colour.white, ⟨0xff, 0xff, 0xff⟩), (Colour.black, ⟨0x00, 0x00, 0x00⟩)]

/-- The square of the difference of two channels. -/
def channelGap (a b : UInt8) : Nat :=
  let d := ((a.toNat : Int) - b.toNat).natAbs
  d * d

/-- The square of the Euclidean distance of two RGB values. -/
def Rgb.distance (a b : Rgb) : Nat :=
  channelGap a.red b.red + channelGap a.green b.green + channelGap a.blue b.blue

/-- The first entry nearest to `v`, given the best one so far and its distance. -/
def nearestFrom (v : Rgb) : Colour × Nat → List (Colour × Rgb) → Colour
  | (best, _), [] => best
  | (best, d), (c, w) :: rest =>
    if v.distance w < d then nearestFrom v (c, v.distance w) rest
    else nearestFrom v (best, d) rest

/-- The first entry of a table nearest to `v`; white if the table is empty. -/
def nearest (v : Rgb) : List (Colour × Rgb) → Colour
  | [] => Colour.white
  | (c, w) :: rest => nearestFrom v (c, v.distance w) rest

def classify (v : Rgb) : Colour :=
  match palette.find? (fun e => e.2 = v) with
  | some e => e.1
  | none => nearest v palette

def Colour.rgb? (c : Colour) : Option Rgb := (palette.find? (fun e => e.1 = c)).map Prod.snd

/-- The palette value of a colour as `#rrggbb`, empty for a colour off the palette. -/
def Colour.hex (c : Colour) : String :=
  match c.rgb? with
  | some v => "#" ++ Bytes.toHex [v.red, v.green, v.blue]
  | none => ""

end Codel
