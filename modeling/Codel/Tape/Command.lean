import Codel.Text.Bytes

namespace Codel.Tape

inductive Command where
  | right
  | left
  | increment
  | decrement
  | write
  | read
  | loopStart
  | loopEnd
deriving DecidableEq, Repr

namespace Command

def all : List Command := [right, left, increment, decrement, write, read, loopStart, loopEnd]

def byte : Command → UInt8
  | right => 0x3e
  | left => 0x3c
  | increment => 0x2b
  | decrement => 0x2d
  | write => 0x2e
  | read => 0x2c
  | loopStart => 0x5b
  | loopEnd => 0x5d

def ofByte? (b : UInt8) : Option Command :=
  if b = 0x3e then some right
  else if b = 0x3c then some left
  else if b = 0x2b then some increment
  else if b = 0x2d then some decrement
  else if b = 0x2e then some write
  else if b = 0x2c then some read
  else if b = 0x5b then some loopStart
  else if b = 0x5d then some loopEnd
  else none

@[simp] theorem ofByte?_byte (c : Command) : ofByte? c.byte = some c := by
  cases c <;> rfl

end Command

/-- The commands of a program, its comments left out. -/
def commands (code : Bytes) : List Command := code.filterMap Command.ofByte?

end Codel.Tape
