import Codel.Grid.Block

namespace Codel

/-- An operation by its name; the empty name is no operation. -/
structure OpCode where
  name : String
deriving DecidableEq, Repr, Inhabited

namespace OpCode

def none : OpCode := ⟨""⟩
def push : OpCode := ⟨"push"⟩
def pop : OpCode := ⟨"pop"⟩
def add : OpCode := ⟨"add"⟩
def subtract : OpCode := ⟨"subtract"⟩
def multiply : OpCode := ⟨"multiply"⟩
def divide : OpCode := ⟨"divide"⟩
def mod : OpCode := ⟨"mod"⟩
def not : OpCode := ⟨"not"⟩
def greater : OpCode := ⟨"greater"⟩
def pointer : OpCode := ⟨"pointer"⟩
def switch : OpCode := ⟨"switch"⟩
def duplicate : OpCode := ⟨"duplicate"⟩
def roll : OpCode := ⟨"roll"⟩
def inNumber : OpCode := ⟨"in_number"⟩
def inChar : OpCode := ⟨"in_char"⟩
def outNumber : OpCode := ⟨"out_number"⟩
def outChar : OpCode := ⟨"out_char"⟩

/-- The name in messages, where no operation reads `none`. -/
def label (op : OpCode) : String := if op = none then "none" else op.name

/-- The operation of a change of hue and lightness. -/
def ofDelta (hue : Fin 6) (lightness : Fin 3) : OpCode :=
  match hue, lightness with
  | 0, 0 => none
  | 0, 1 => push
  | 0, 2 => pop
  | 1, 0 => add
  | 1, 1 => subtract
  | 1, 2 => multiply
  | 2, 0 => divide
  | 2, 1 => mod
  | 2, 2 => not
  | 3, 0 => greater
  | 3, 1 => pointer
  | 3, 2 => switch
  | 4, 0 => duplicate
  | 4, 1 => roll
  | 4, 2 => inNumber
  | 5, 0 => inChar
  | 5, 1 => outNumber
  | 5, 2 => outChar

/-- The operation of the step from one colour to another. -/
def between (c d : Colour) : OpCode :=
  match c.delta? d with
  | some (h, l) => ofDelta h l
  | Option.none => none

end OpCode

/-- The step from one block to another as the machine sees it. -/
structure Instruction where
  op : OpCode
  /-- The size of the block that is left. -/
  operand : Nat
  hue : Nat
  lightness : Nat
deriving DecidableEq, Repr

/-- The instruction of the step between two blocks. -/
def Instruction.between (b c : Block) : Instruction :=
  let (h, l) := match b.colour.delta? c.colour with
    | some (h, l) => (h.val, l.val)
    | none => (0, 0)
  ⟨OpCode.between b.colour c.colour, b.size, h, l⟩

/-- Whether the machine has nothing to do. -/
def Instruction.isIdle (i : Instruction) : Bool := i.op = OpCode.none

end Codel
