import Codel.Palette

namespace Codel

/-- A pixel in its own colour model; the channels of the 16-bit models are below `2 ^ 16`. -/
inductive Pixel where
  | straight (red green blue alpha : UInt8)
  | premultiplied (red green blue alpha : UInt8)
  | straight16 (red green blue alpha : UInt16)
  | premultiplied16 (red green blue alpha : UInt16)
  | gray (level : UInt8)
  | gray16 (level : UInt16)
  | alpha (level : UInt8)
  | cmyk (cyan magenta yellow black : UInt8)
deriving DecidableEq, Repr

namespace Pixel

/-- Full intensity of a 16-bit channel. -/
def full : Nat := 0xffff

/-- An 8-bit channel spread over 16 bits. -/
def spread (v : UInt8) : Nat := v.toNat * 257

/-- A channel scaled by another, in 16 bits. -/
def scale (v w : Nat) : Nat := v * w / full

/-- The 16-bit channels premultiplied by alpha, and alpha. -/
def channels : Pixel → Nat × Nat × Nat × Nat
  | straight r g b a =>
    (scale (spread r) (spread a), scale (spread g) (spread a), scale (spread b) (spread a), spread a)
  | premultiplied r g b a => (spread r, spread g, spread b, spread a)
  | straight16 r g b a =>
    (scale r.toNat a.toNat, scale g.toNat a.toNat, scale b.toNat a.toNat, a.toNat)
  | premultiplied16 r g b a => (r.toNat, g.toNat, b.toNat, a.toNat)
  | gray y => (spread y, spread y, spread y, full)
  | gray16 y => (y.toNat, y.toNat, y.toNat, full)
  | alpha a => (spread a, spread a, spread a, spread a)
  | cmyk c m y k =>
    let w := full - spread k
    (scale (full - spread c) w, scale (full - spread m) w, scale (full - spread y) w, full)

/-- A premultiplied 16-bit channel as a straight 8-bit one, cut to its low eight bits. -/
def straighten (v a : Nat) : UInt8 :=
  if a = full then UInt8.ofNat (v / 256)
  else if a = 0 then 0
  else UInt8.ofNat (v * full / a / 256)

def rgb : Pixel → Rgb
  | straight r g b _ => ⟨r, g, b⟩
  | p =>
    let (r, g, b, a) := p.channels
    ⟨straighten r a, straighten g a, straighten b a⟩

def colour (p : Pixel) : Colour := classify p.rgb

/-- A pixel of a colour model by name, if the model is known and has that many channels. -/
def ofChannels? (model : String) (vs : List Nat) : Option Pixel :=
  match model, vs with
  | "nrgba", [r, g, b, a] => some (straight (.ofNat r) (.ofNat g) (.ofNat b) (.ofNat a))
  | "rgba", [r, g, b, a] => some (premultiplied (.ofNat r) (.ofNat g) (.ofNat b) (.ofNat a))
  | "nrgba64", [r, g, b, a] => some (straight16 (.ofNat r) (.ofNat g) (.ofNat b) (.ofNat a))
  | "rgba64", [r, g, b, a] => some (premultiplied16 (.ofNat r) (.ofNat g) (.ofNat b) (.ofNat a))
  | "gray", [y] => some (gray (.ofNat y))
  | "gray16", [y] => some (gray16 (.ofNat y))
  | "alpha", [a] => some (alpha (.ofNat a))
  | "cmyk", [c, m, y, k] => some (cmyk (.ofNat c) (.ofNat m) (.ofNat y) (.ofNat k))
  | _, _ => none

end Pixel

end Codel
