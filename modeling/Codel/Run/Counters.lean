import Codel.Machine.OpCode
import Codel.Run.State

namespace Codel

structure Counters where
  steps : Nat := 0
  running : Int := 0
  finished : List (String × Nat) := []
  executed : List (String × Nat) := []
deriving DecidableEq, Repr

/-- Adds one under a key, keeping keys in increasing order. -/
def countUnder (key : String) : List (String × Nat) → List (String × Nat)
  | [] => [(key, 1)]
  | (k, n) :: rest =>
    if key = k then (k, n + 1) :: rest
    else if key < k then (key, 1) :: (k, n) :: rest
    else (k, n) :: countUnder key rest

namespace Counters

def enter (c : Counters) : Counters := { c with running := c.running + 1 }

def leave (c : Counters) (status : Status) : Counters :=
  { c with running := c.running - 1, finished := countUnder status.name c.finished }

def step (c : Counters) : Counters := { c with steps := c.steps + 1 }

/-- An instruction has been executed; the empty one does not count. -/
def count (c : Counters) (i : Instruction) : Counters :=
  if i.isIdle then c else { c with executed := countUnder i.op.label c.executed }

end Counters

end Codel
