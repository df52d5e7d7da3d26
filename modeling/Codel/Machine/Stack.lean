import Codel.Text.Integer

namespace Codel

/-- A stack, its top value first. -/
structure Stack where
  items : List Int64 := []
deriving DecidableEq, Repr, Inhabited

namespace Stack

/-- The stack with the given values, the bottom one first. -/
def ofValues (vs : List Int64) : Stack := ⟨vs.reverse⟩

def values (s : Stack) : List Int64 := s.items.reverse

@[simp] theorem values_ofValues (vs : List Int64) : (ofValues vs).values = vs := by
  simp [ofValues, values]

def size (s : Stack) : Nat := s.items.length

def push (s : Stack) (v : Int64) : Stack := ⟨v :: s.items⟩

def peek? (s : Stack) : Option Int64 := s.items.head?

def pop? (s : Stack) : Option (Int64 × Stack) :=
  match s.items with
  | v :: rest => some (v, ⟨rest⟩)
  | [] => none

/-- Takes the two upper values: the lower one, the upper one and the rest. -/
def pop2? (s : Stack) : Option (Int64 × Int64 × Stack) :=
  match s.items with
  | b :: a :: rest => some (a, b, ⟨rest⟩)
  | _ => none

/-- Rotates the top `depth` values; a positive roll buries the top value, and rolls that differ by a
multiple of the depth are the same. None if the depth is not positive or above the size. -/
def roll? (s : Stack) (depth rolls : Int64) : Option Stack :=
  if 0 < depth.toInt ∧ depth.toInt ≤ s.size then
    let d := depth.toInt.toNat
    let r := (rolls.toInt % depth.toInt).toNat
    some ⟨(s.items.take d).rotateLeft r ++ s.items.drop d⟩
  else none

/-- The values separated by commas, the top one first. -/
def text (s : Stack) : String := ",".intercalate (s.items.map wordText)

end Stack

end Codel
