import Codel.Cancellation
import Codel.Grid.BlockCache
import Codel.Machine.InstructionSet
import Codel.Program
import Codel.Run.Counters
import Codel.Run.State
import Codel.RunId
import Codel.Trace.Encoding

namespace Codel

structure Setup where
  program : Program
  run : RunId
  instructions : InstructionSet := InstructionSet.standard
  /-- The number of steps at which the run is stopped. -/
  stepLimit : Nat := 10000
  /-- Whether blocks are remembered. -/
  cached : Bool := true
  input : Bytes := []
  output : Sink := {}
  prompt : Option Sink := none
  trace : Option Sink := none
  cancellation : Option Cancellation := none

/-- One executed crossing, as seen after its operation. -/
structure Transition where
  step : Nat
  instruction : Instruction
  pos : Pos
  colour : Colour
  dp : Direction
  cc : Chooser
  stack : Stack
  /-- The write that the operation could not make. -/
  fault : Option WriteFault
deriving DecidableEq, Repr

def Transition.record (t : Transition) : Trace.Step where
  step := Int64.ofNat t.step
  x := t.pos.x
  y := t.pos.y
  colour := Bytes.ofString t.colour.name
  op := Bytes.ofString t.instruction.op.label
  blockSize := Int64.ofNat t.instruction.operand
  dp := Bytes.ofString t.dp.name
  cc := Bytes.ofString t.cc.name
  stack := some t.stack.values

def Setup.header (s : Setup) : Trace.Header where
  run := Bytes.ofString s.run.text
  program := Bytes.ofString s.program.path
  width := Int64.ofInt s.program.grid.width
  height := Int64.ofInt s.program.grid.height
  codelSize := s.program.codelSize

/-- A run under way; `history` holds its transitions, the latest first, and all that is shown of a run
is read off them. -/
structure Walk (g : Grid) where
  state : RunState
  locator : Locator g
  trace : Option Sink
  counters : Counters := Counters.enter {}
  history : List Transition := []

inductive Ending where
  | blocked
  | stepLimit
  | canceled (cause : CancelCause)
  | untraced (failure : Trace.WriteFailure)
deriving DecidableEq, Repr

def Ending.status : Ending → Status
  | blocked => .blocked
  | stepLimit => .stepLimit
  | canceled .canceled => .canceled
  | canceled .deadline => .canceled
  | canceled (.other _) => .exit
  | untraced _ => .exit

inductive RunError where
  | canceled (step : Nat) (cause : CancelCause)
  | foreign (text : String)
  | untraced (failure : Trace.WriteFailure)
deriving DecidableEq, Repr

def RunError.message : RunError → String
  | canceled step cause =>
    "At step " ++ decimalText step ++ ", " ++ cause.text ++ ": Execution canceled"
  | foreign text => text
  | untraced failure => failure.message

/-- What a run that has counted `steps` steps reports at its end. -/
def Ending.error? (steps : Nat) : Ending → Option RunError
  | blocked => none
  | stepLimit => none
  | canceled (.other text) => some (.foreign text)
  | canceled cause => some (.canceled steps cause)
  | untraced failure => some (.untraced failure)

/-- Executes an instruction; the empty one is left to no executor. -/
def InstructionSet.execute (set : InstructionSet) (i : Instruction) (m : Machine) :
    Machine × Option WriteFault :=
  if i.isIdle then (m, none) else (set.executor i.op).run i.op i.operand m

/-- The cause for which a run that has counted `steps` steps has to stop. -/
def Setup.canceled? (s : Setup) (steps : Nat) : Option CancelCause :=
  match s.cancellation with
  | some c => if c.after ≤ steps then some c.cause else none
  | none => none

namespace Walk

variable {g : Grid}

/-- Adds a transition to the record; the reason if the trace refuses it. -/
def observe (w : Walk g) (t : Transition) : Walk g × Option Ending :=
  match w.trace with
  | none => ({ w with history := t :: w.history }, none)
  | some sink =>
    let bs := t.record.encode
    ({ w with history := t :: w.history, trace := some (sink.write bs) },
      if sink.takes bs then none
      else some (.untraced (.step (Int64.ofNat t.step) sink.cause)))

/-- Leaves the current block: navigates, executes the crossing and moves. -/
def advance (set : InstructionSet) (w : Walk g) : Walk g × Option Ending :=
  let (current, locator) := w.locator.find w.state.pos
  let move := g.navigate current.codels w.state.machine.dp w.state.machine.cc
  let state := w.state.turn move
  if move.blocked then ({ w with state := state, locator := locator }, some .blocked)
  else
    let (next, locator) := locator.find move.target
    let i := Instruction.between current next
    let (machine, fault) := set.execute i state.machine
    let state := { state with machine := machine, pos := move.target }
    { w with
      state := state
      locator := locator
      counters := w.counters.count i }.observe {
      step := state.steps
      instruction := i
      pos := move.target
      colour := g.colourAt move.target
      dp := machine.dp
      cc := machine.cc
      stack := machine.stack
      fault := fault }

/-- Turns until the run ends; `left` more turns may move before the step limit is reached. -/
def loop (s : Setup) : (left : Nat) → Walk g → Walk g × Ending
  | left, w =>
    match s.canceled? w.state.steps with
    | some cause => (w, .canceled cause)
    | none =>
      let w := { w with state := w.state.tick }
      match left with
      | 0 => (w, .stepLimit)
      | left + 1 =>
        match { w with counters := w.counters.step }.advance s.instructions with
        | (w, some ending) => (w, ending)
        | (w, none) => loop s left w

end Walk

structure Outcome where
  state : RunState
  /-- Why it ended; none if it did not begin. -/
  ending : Option Ending
  error : Option RunError
  transitions : List Transition
  trace : Option Sink
  counters : Counters := {}

namespace Setup

def machine (s : Setup) : Machine :=
  { input := s.input, output := s.output, prompt := s.prompt }

/-- Runs the program, its trace being open. -/
def walk (s : Setup) (trace : Option Sink) : Outcome :=
  let start : Walk s.program.grid := {
    state := { machine := s.machine, status := .running }
    locator := Locator.start _ s.cached
    trace := trace }
  let (w, ending) := Walk.loop s (s.stepLimit - 1) start
  let state := w.state.change ending.status
  { state := state
    ending := some ending
    error := ending.error? w.state.steps
    transitions := w.history.reverse
    trace := w.trace
    counters := w.counters.leave state.status }

/-- Runs the program. Nothing is executed if the trace does not take the header. -/
def execute (s : Setup) : Outcome :=
  match s.trace with
  | none => s.walk none
  | some sink =>
    let bs := s.header.encode
    if sink.takes bs then s.walk (some (sink.write bs))
    else
      { state := { machine := s.machine }
        ending := none
        error := some (.untraced (.header sink.cause))
        transitions := []
        trace := some (sink.write bs) }

/-- Checks codel size and step limit, the codel size first. -/
def check (codelSize stepLimit : Int64) : Except Refusal Unit :=
  if codelSize < 1 then .error (.codelSize codelSize)
  else if stepLimit < 1 then .error (.stepLimit stepLimit)
  else .ok ()

/-- A program that has codels. -/
def nonempty (p : Option Program) : Except Refusal Program :=
  match p with
  | some p => if p.grid.area = 0 then .error .noCodels else .ok p
  | none => .error .noCodels

end Setup

end Codel
