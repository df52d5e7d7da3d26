import Codel.Grid.Navigation
import Codel.Machine.Basic

namespace Codel

/-- How far a run has come. -/
inductive Status where
  | new
  | running
  | blocked
  | stepLimit
  | canceled
  | exit
  | other (name : String)
deriving DecidableEq, Repr

namespace Status

def name : Status → String
  | new => "New"
  | running => "Running"
  | blocked => "Blocked"
  | stepLimit => "StepLimit"
  | canceled => "Canceled"
  | exit => "Exit"
  | other name => name

def ofName : String → Status
  | "New" => new
  | "Running" => running
  | "Blocked" => blocked
  | "StepLimit" => stepLimit
  | "Canceled" => canceled
  | "Exit" => exit
  | name => other name

def isTerminated : Status → Bool
  | blocked | stepLimit | canceled | exit => true
  | _ => false

end Status

structure RunState where
  pos : Pos := Pos.origin
  steps : Nat := 0
  status : Status := .new
  machine : Machine := {}

namespace RunState

/-- Takes a new status, unless the run has ended. -/
def change (s : RunState) (status : Status) : RunState :=
  if s.status.isTerminated then s else { s with status := status }

def tick (s : RunState) : RunState := { s with steps := s.steps + 1 }

/-- Whether the counted steps have come to a limit. -/
def reached (s : RunState) (limit : Int64) : Bool := limit.toInt ≤ s.steps

/-- Takes over the pointers that a move ended with. -/
def turn (s : RunState) (m : Move) : RunState :=
  { s with machine := { s.machine with dp := m.dp, cc := m.cc } }

def moveTo (s : RunState) (p : Pos) : RunState := { s with pos := p }

end RunState

end Codel
