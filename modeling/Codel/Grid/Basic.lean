import Codel.Colour
import Codel.Grid.Pos

namespace Codel

def assign {α : Type} {n : Nat} (xs : Vector α n) (i : Fin n) (x : α) : Vector α n :=
  xs.set i.val x i.isLt

/-- A rectangle of codels, stored row by row; none if width or height is negative. -/
structure Grid where
  width : Int
  height : Int
  codels : Vector Colour (width.toNat * height.toNat)

namespace Grid

abbrev size (g : Grid) : Nat := g.width.toNat * g.height.toNat

/-- Width times height in 64 bits, which is the number of codels unless one of them is negative. -/
def area (g : Grid) : Int64 := Int64.ofInt (g.width * g.height)

def empty : Grid := ⟨0, 0, Vector.replicate _ Colour.unknown⟩

/-- The grid whose codel in column `x` and row `y` is `f x y`. -/
def ofFn (width height : Int) (f : Nat → Nat → Colour) : Grid :=
  ⟨width, height, Vector.ofFn fun i => f (i.val % width.toNat) (i.val / width.toNat)⟩

theorem row_index_lt {x y w h : Nat} (hx : x < w) (hy : y < h) : y * w + x < w * h := by
  have hrow : (y + 1) * w ≤ h * w := Nat.mul_le_mul_right w hy
  rw [Nat.add_mul, Nat.one_mul] at hrow
  rw [Nat.mul_comm w h]
  omega

/-- Where a position's codel is stored, if it lies on the grid. -/
def index? (g : Grid) (p : Pos) : Option (Fin g.size) :=
  if h : (0 ≤ p.x.toInt ∧ p.x.toInt < g.width) ∧ 0 ≤ p.y.toInt ∧ p.y.toInt < g.height then
    some ⟨p.y.toInt.toNat * g.width.toNat + p.x.toInt.toNat, row_index_lt (by omega) (by omega)⟩
  else none

def contains (g : Grid) (p : Pos) : Bool := (g.index? p).isSome

/-- The colour at a position, unknown off the grid. -/
def colourAt (g : Grid) (p : Pos) : Colour :=
  match g.index? p with
  | some i => g.codels[i]
  | none => Colour.unknown

/-- The codels of a grid row by row. -/
def rows (g : Grid) : List (List Colour) :=
  (List.range g.height.toNat).map fun y =>
    (List.range g.width.toNat).map fun x => g.colourAt ⟨Int64.ofNat x, Int64.ofNat y⟩

end Grid

end Codel
