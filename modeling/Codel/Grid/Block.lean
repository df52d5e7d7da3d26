import Codel.Grid.Basic

namespace Codel

/-- A set of codels of one colour. -/
structure Block where
  colour : Colour
  codels : List Pos
deriving DecidableEq, Repr

namespace Block

def size (b : Block) : Nat := b.codels.length

def contains (b : Block) (p : Pos) : Bool := b.codels.contains p

end Block

/-- A ring under way: which codels have been reached so far, and those of this ring, latest first. -/
structure Fill (g : Grid) where
  seen : Vector Bool g.size
  found : List Pos

namespace Fill

variable {g : Grid}

/-- Adds a position to the ring if it has the colour and was not reached before. -/
def offer (colour : Colour) (f : Fill g) (p : Pos) : Fill g :=
  match g.index? p with
  | none => f
  | some i =>
    if g.codels.get i = colour ∧ f.seen.get i = false then
      ⟨assign f.seen i true, p :: f.found⟩
    else f

def blank (g : Grid) : Fill g := ⟨Vector.replicate _ false, []⟩

/-- The ring one step out: what the neighbours of a ring's codels, in the ring's order, add. -/
def around (colour : Colour) (seen : Vector Bool g.size) (ring : List Pos) : Fill g :=
  ring.foldl (fun f p => p.neighbours.foldl (offer colour) f) ⟨seen, []⟩

/-- Rings from a first one outwards, up to an empty one. Each holds a codel that no other holds, so
there are at most as many as the grid has codels. -/
def rings (colour : Colour) : (most : Nat) → Fill g → List (List Pos)
  | 0, _ => []
  | most + 1, ⟨seen, found⟩ =>
    if found.isEmpty then []
    else
      let ring := found.reverse
      ring :: rings colour most (around colour seen ring)

end Fill

/-- The block that holds a position, listed outwards from it; empty off the grid. -/
def Grid.blockAt (g : Grid) (start : Pos) : Block :=
  let colour := g.colourAt start
  ⟨colour, (Fill.rings colour g.size (Fill.offer colour (Fill.blank g) start)).flatten⟩

end Codel
