import Codel.Log
import Codel.Run.Basic

namespace Codel

/-- Something a run shows: a log entry, or a bare line for debugging. -/
inductive Note where
  | entry (e : Log.Entry)
  | line (text : String)
deriving DecidableEq, Repr

/-- The fields of a run's log entries; those within a step carry its number. -/
def Setup.logFields (s : Setup) (step : Nat) : List (String × Log.Value) :=
  [("channel", .text (if step = 0 then "run" else "step"))] ++
    (if s.run.isValid then [("run", .text s.run.text)] else []) ++
    (if s.program.path = "" then [] else [("program", .text s.program.path)]) ++
    (if step = 0 then [] else [("step", .number step)])

def Setup.logEntry (s : Setup) (level : Log.Level) (step : Nat) (message : String) : Log.Entry :=
  ⟨level, message, s.logFields step⟩

def Instruction.debugLine (i : Instruction) : String :=
  "  Command: " ++ i.op.label ++ " (blockSize: " ++ decimalText i.operand ++ ", hue: " ++
    decimalText i.hue ++ ", light: " ++ decimalText i.lightness ++ ")\n"

def Transition.debugLine (t : Transition) : String :=
  "Step " ++ decimalText t.step ++ ": Pos" ++ t.pos.text ++ " Color:" ++ t.colour.name ++
    " Stack:[" ++ t.stack.text ++ "]\n"

/-- What one transition shows: its instruction if it has one, a write that failed, its result. -/
def Setup.transitionNotes (s : Setup) (debug : Bool) (t : Transition) : List Note :=
  (if debug && !t.instruction.isIdle then [.line t.instruction.debugLine] else []) ++
    (match t.fault with
      | some f => [.entry (s.logEntry .warning t.step
          ("Execute " ++ t.instruction.op.label ++ ", " ++ f.message))]
      | none => []) ++
    (if debug then [.line t.debugLine] else [])

def Setup.endingNotes (s : Setup) (steps : Nat) : Ending → List Note
  | .blocked =>
    [.entry (s.logEntry .debug steps
      ("Blocked after " ++ decimalText maxAttempts ++ " navigation attempts"))]
  | .stepLimit =>
    [.entry (s.logEntry .warning steps
      ("Execution terminated after " ++ decimalText s.stepLimit ++
        " steps to prevent infinite loop."))]
  | .canceled _ => []
  | .untraced _ => []

/-- Everything a run shows, in order; nothing if it did not begin. -/
def Setup.notes (s : Setup) (debug : Bool) (o : Outcome) : List Note :=
  match o.ending with
  | none => []
  | some ending =>
    [.entry (s.logEntry .debug 0
      ("Run " ++ decimalText s.program.grid.width ++ "x" ++ decimalText s.program.grid.height ++
        " program"))] ++
      o.transitions.flatMap (s.transitionNotes debug) ++ s.endingNotes o.state.steps ending

/-- The entries among notes that a logger of a level keeps. -/
def logEntries (level : Log.Level) (notes : List Note) : List Log.Entry :=
  notes.filterMap fun
    | .entry e => if level.keeps e.level then some e else none
    | .line _ => none

def debugText (notes : List Note) : String :=
  "".intercalate (notes.filterMap fun
    | .line text => some text
    | .entry _ => none)

end Codel
