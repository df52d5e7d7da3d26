import Codel.Proofs.Run.Padding
import Codel.Proofs.Run.Recording

namespace Codel

namespace Walk

variable {g : Grid} {w : Walk g} {trace : Option Sink}

/-- What the trace was given to write since it was opened, whether or not it took it. -/
def Traced (trace : Option Sink) (w : Walk g) : Prop :=
  w.trace = trace.map (·.writes (recordWrites w.history))

theorem Traced.observe (h : w.Traced trace) (t : Transition) : (w.observe t).1.Traced trace := by
  unfold Traced
  rw [observe_trace, observe_history, recordWrites_cons, h]
  cases trace with
  | none => rfl
  | some k => exact congrArg some (k.writes_concat _ _).symm

theorem Traced.advance (hw : w.Ready) (h : w.Traced trace) (set : InstructionSet) :
    (w.advance set).1.Traced trace := by
  cases hb : (w.state.move g).blocked with
  | true =>
    rw [advance_of_blocked hw hb]
    exact h
  | false =>
    rw [advance_eq_observe hw hb]
    exact Traced.observe (w := w.landed set) h _

theorem Traced.close {r : Walk g × Option Ending} (h : r.1.Traced trace) (s : Setup) :
    (close s r).1.Traced trace := by
  rcases close_cases s r with hr | hr <;> rw [hr] <;> exact h

end Walk

/-- The outcome but for what became of the trace. -/
def Outcome.untraced (o : Outcome) : Outcome := { o with trace := none }

namespace Setup

variable {s : Setup}

end Setup

end Codel
