import Codel.Image.Pixel

namespace Codel

/-- A picture. `pixel` is asked for columns from `left` on and rows from `top` on. -/
structure Raster where
  left : Int := 0
  top : Int := 0
  width : Int
  height : Int
  pixel : Int → Int → Pixel

namespace Raster

/-- A picture from its pixels row by row; pixels that are missing are transparent black. -/
def ofArray (left top width height : Int) (pixels : Array Pixel) : Raster where
  left := left
  top := top
  width := width
  height := height
  pixel x y :=
    pixels[(y - top).toNat * width.toNat + (x - left).toNat]?.getD (.straight 0 0 0 0)

/-- A picture between two corners, the second one being outside of it. Its size is the difference of
64-bit numbers, so corners far apart give a negative one. -/
def between (left top right bottom : Int64) (pixels : Array Pixel) : Raster :=
  ofArray left.toInt top.toInt (right - left).toInt (bottom - top).toInt pixels

end Raster

end Codel
