import Codel.Grid.Block

namespace Codel

/-- How far along a direction a position lies. -/
def Pos.reach (d : Direction) (p : Pos) : Int64 :=
  if d = Direction.right then p.x
  else if d = Direction.down then p.y
  else if d = Direction.left then -p.x
  else -p.y

/-- The coordinate across a direction. -/
def Pos.across (d : Direction) (p : Pos) : Int64 := if d.isHorizontal then p.y else p.x

/-- The codels of a list that lie furthest along a direction. -/
def edge (d : Direction) : List Pos → List Pos
  | [] => []
  | p :: ps =>
    let best := ps.foldl (fun m q => if m < q.reach d then q.reach d else m) (p.reach d)
    (p :: ps).filter fun q => q.reach d = best

/-- Whether a chooser takes `p` rather than `q` from an edge. -/
def Chooser.prefers (c : Chooser) (d : Direction) (p q : Pos) : Bool :=
  (c = left && p.across d < q.across d) || (c = right && q.across d < p.across d)

/-- The codel that is left from; none if there are no codels. -/
def exitCodel? (codels : List Pos) (d : Direction) (c : Chooser) : Option Pos :=
  match edge d codels with
  | [] => none
  | p :: ps => some (ps.foldl (fun chosen q => if c.prefers d q chosen then q else chosen) p)

structure Move where
  target : Pos := Pos.origin
  dp : Direction
  cc : Chooser
  attempts : Nat := 0
  blocked : Bool := false
deriving DecidableEq, Repr

/-- The number of tries before a block counts as closed. -/
def maxAttempts : Nat := 8

/-- The codel beyond the exit that the pointers select, if it can be entered. -/
def Grid.beyond? (g : Grid) (codels : List Pos) (d : Direction) (c : Chooser) : Option Pos :=
  match exitCodel? codels d c with
  | none => none
  | some p =>
    let next := p.step d
    if g.contains next ∧ g.colourAt next ≠ Colour.black then some next else none

/-- The chooser after a failed try. -/
def Chooser.retry (c : Chooser) (attempt : Nat) : Chooser :=
  if attempt % 2 = 1 then c.toggle else c

/-- Tries the remaining exits, `attempt` tries having failed. -/
def Grid.navigateFrom (g : Grid) (codels : List Pos) :
    (left : Nat) → (attempt : Nat) → Direction → Chooser → Move
  | 0, attempt, d, c => { dp := d, cc := c, attempts := attempt, blocked := true }
  | left + 1, attempt, d, c =>
    match g.beyond? codels d c with
    | some next => { target := next, dp := d, cc := c, attempts := attempt + 1 }
    | none => g.navigateFrom codels left (attempt + 1) d.clockwise (c.retry attempt)

/-- The way out of a block, or the pointers after the last try. -/
def Grid.navigate (g : Grid) (codels : List Pos) (d : Direction) (c : Chooser) : Move :=
  if codels = [] then { dp := d, cc := c, blocked := true }
  else g.navigateFrom codels maxAttempts 0 d c

end Codel
