import Codel.Text.Integer

namespace Codel

/-- A codel's column and row. -/
structure Pos where
  x : Int64
  y : Int64
deriving DecidableEq, Repr, Inhabited

/-- A direction; the four compass values are numbered clockwise from right. -/
structure Direction where
  code : Int64
deriving DecidableEq, Repr, Inhabited

namespace Direction

def right : Direction := ⟨0⟩
def down : Direction := ⟨1⟩
def left : Direction := ⟨2⟩
def up : Direction := ⟨3⟩

def compass : List Direction := [right, down, left, up]

/-- A quarter turn clockwise; the remainder takes the sign of the dividend. -/
def clockwise (d : Direction) : Direction := ⟨(d.code + 1) % 4⟩

/-- A number of turns from 0 to 7 that leads where `n` turns lead: four turns lead to the compass
from anywhere, and there every four turns lead back. -/
def fewTurns (n : Nat) : Nat := if n < 8 then n else 4 + n % 4

/-- As many quarter turns clockwise as `n` says, none for a negative `n`. -/
def rotate (d : Direction) (n : Int64) : Direction :=
  Nat.repeat clockwise (fewTurns n.toNatClampNeg) d

def isHorizontal (d : Direction) : Bool := d = right || d = left

def name (d : Direction) : String :=
  if d = right then "Right"
  else if d = down then "Down"
  else if d = left then "Left"
  else if d = up then "Up"
  else "Direction(" ++ wordText d.code ++ ")"

end Direction

/-- Which end of a block's edge is left from: 0 is left, anything else reads as right. -/
structure Chooser where
  code : Int64
deriving DecidableEq, Repr, Inhabited

namespace Chooser

def left : Chooser := ⟨0⟩
def right : Chooser := ⟨1⟩

def both : List Chooser := [left, right]

def toggle (c : Chooser) : Chooser := if c = left then right else left

def name (c : Chooser) : String := if c = left then "Left" else "Right"

end Chooser

namespace Pos

def origin : Pos := ⟨0, 0⟩

def text (p : Pos) : String := "(" ++ wordText p.x ++ "," ++ wordText p.y ++ ")"

/-- The neighbour one codel towards a compass direction; other directions lead nowhere. -/
def step (p : Pos) (d : Direction) : Pos :=
  if d = Direction.right then ⟨p.x + 1, p.y⟩
  else if d = Direction.down then ⟨p.x, p.y + 1⟩
  else if d = Direction.left then ⟨p.x - 1, p.y⟩
  else if d = Direction.up then ⟨p.x, p.y - 1⟩
  else p

/-- The four neighbours: right, left, down, up. -/
def neighbours (p : Pos) : List Pos :=
  [p.step .right, p.step .left, p.step .down, p.step .up]

end Pos

end Codel
