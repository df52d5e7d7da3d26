import Codel.Cancellation
import Codel.Tape.Command
import Codel.Text.Integer

namespace Codel.Tape

abbrev cellCount : Nat := 30000

/-- A tape machine: cells, position on the tape and in the program, starts of the loops under way
with the innermost first, input left, and the cells written with the latest first. -/
structure State where
  cells : Vector UInt8 cellCount := Vector.replicate _ 0
  pointer : Fin cellCount := 0
  position : Nat := 0
  loops : List Nat := []
  input : Bytes := []
  written : List UInt8 := []

/-- The position after the end of the loop that `depth` loops from `i` on are inside of, or the end
of the program. -/
def pastLoop (code : Array UInt8) (i depth : Nat) : Nat :=
  if h : i < code.size then
    match depth with
    | 0 => i
    | depth + 1 =>
      match Command.ofByte? code[i] with
      | some .loopStart => pastLoop code (i + 1) (depth + 2)
      | some .loopEnd => pastLoop code (i + 1) depth
      | _ => pastLoop code (i + 1) (depth + 1)
  else i
termination_by code.size - i

namespace State

def start (input : Bytes) : State := { input := input }

def cell (s : State) : UInt8 := s.cells[s.pointer]

/-- Changes the cell under the pointer and moves on in the program. -/
def setCell (s : State) (v : UInt8) : State :=
  { s with cells := s.cells.set s.pointer v, position := s.position + 1 }

/-- Executes a command and moves on in the program. -/
def exec (code : Array UInt8) (c : Command) (s : State) : State :=
  match c with
  | .right => { s with pointer := s.pointer + 1, position := s.position + 1 }
  | .left => { s with pointer := s.pointer - 1, position := s.position + 1 }
  | .increment => s.setCell (s.cell + 1)
  | .decrement => s.setCell (s.cell - 1)
  | .write => { s with written := s.cell :: s.written, position := s.position + 1 }
  | .read =>
    match s.input with
    | [] => s.setCell 0
    | b :: rest => { s with input := rest }.setCell b
  | .loopStart =>
    if s.cell = 0 then { s with position := pastLoop code (s.position + 1) 1 }
    else { s with loops := s.position :: s.loops, position := s.position + 1 }
  | .loopEnd =>
    match s.loops with
    | [] => { s with position := s.position + 1 }
    | start :: outer =>
      if s.cell = 0 then { s with loops := outer, position := s.position + 1 }
      else { s with position := start + 1 }

/-- Executes a byte of the program; one that is no command is passed over. -/
def execByte (code : Array UInt8) (b : UInt8) (s : State) : State :=
  match Command.ofByte? b with
  | some c => exec code c s
  | none => { s with position := s.position + 1 }

def isDone (code : Array UInt8) (s : State) : Bool := code.size ≤ s.position

/-- Executes up to `budget` bytes of the program. -/
def run (code : Array UInt8) : (budget : Nat) → State → State
  | 0, s => s
  | budget + 1, s =>
    if h : s.position < code.size then run code budget (execByte code code[s.position] s) else s

/-- What was written: each cell as the character of that code point. -/
def output (s : State) : Bytes :=
  s.written.reverse.flatMap fun b => String.utf8EncodeChar (Char.ofNat b.toNat)

end State

/-- A tape program that was stopped before its end. -/
structure Interrupted where
  position : Nat
  cause : CancelCause
deriving DecidableEq, Repr

def Interrupted.message (i : Interrupted) : String :=
  "At instruction " ++ decimalText i.position ++ ", " ++ i.cause.text ++ ": Execution canceled"

/-- Runs a program that is asked to stop after some bytes of it: what it wrote, and where it was
stopped if it had not ended by then. -/
def execute (code input : Bytes) (stop : Cancellation) : Bytes × Option Interrupted :=
  let code := code.toArray
  let s := State.run code stop.after (State.start input)
  (s.output, if s.isDone code then none else some ⟨s.position, stop.cause⟩)

end Codel.Tape
