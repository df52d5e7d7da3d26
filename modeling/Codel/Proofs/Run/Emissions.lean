import Codel.Proofs.Run.Leaving
import Codel.Proofs.Run.Muting
import Codel.Run.Report

namespace Codel

/-- A value that a transition has the machine write. -/
structure Emission where
  step : Nat
  op : OpCode
  form : Form
  value : Int64
deriving DecidableEq, Repr

namespace Emission

variable {k : Sink} {n : Nat} {es : List Emission} {e : Emission}

def bytes (e : Emission) : Bytes := e.form.bytes e.value

/-- The log entry that says why it was not written. -/
def warning (s : Setup) (cause : String) (e : Emission) : Log.Entry :=
  s.logEntry .warning e.step
    ("Execute " ++ e.op.label ++ ", " ++ (WriteFault.mk e.form e.value cause).message)

/-- Which of the writes keep the total within `n` bytes, `used` bytes being there before them. A
write that does not fit adds nothing to the total. -/
def judged (n : Nat) : (used : Nat) → List Emission → List (Emission × Bool)
  | _, [] => []
  | used, e :: es =>
    if used + e.bytes.length ≤ n then (e, true) :: judged n (used + e.bytes.length) es
    else (e, false) :: judged n used es

/-- Which of the writes a sink takes. -/
def judgedBy (k : Sink) : List Emission → List (Emission × Bool)
  | [] => []
  | e :: es => (e, k.takes e.bytes) :: judgedBy (k.write e.bytes) es

theorem judgedBy_concat (k : Sink) (es : List Emission) (e : Emission) :
    judgedBy k (es ++ [e]) =
      judgedBy k es ++ [(e, (k.writes (es.map bytes)).takes e.bytes)] := by
  induction es generalizing k with
  | nil => rfl
  | cons _ es ih => exact congrArg (_ :: ·) (ih _)

theorem bytes_writes (k : Sink) (es : List Emission) : (k.writes (es.map bytes)).bytes =
    k.bytes ++ ((judgedBy k es).filter (·.2)).flatMap (·.1.bytes) := by
  induction es generalizing k with
  | nil => exact (List.append_nil _).symm
  | cons e es ih =>
    change ((k.write e.bytes).writes (es.map bytes)).bytes = _
    rw [ih, judgedBy]
    cases htakes : k.takes e.bytes with
    | true =>
      rw [Sink.bytes_write_of_takes htakes, List.filter_cons_of_pos rfl, List.flatMap_cons,
        List.append_assoc]
    | false =>
      rw [List.filter_cons_of_neg Bool.false_ne_true, Sink.write_of_refused htakes]
      rfl

/-- A sink with room for `n` bytes goes by the total so far. -/
theorem judgedBy_limited (hk : k.admits = (Sink.limited n).admits) (es : List Emission) :
    judgedBy k es = judged n k.tally.bytes es := by
  induction es generalizing k with
  | nil => rfl
  | cons e es ih =>
    have htakes : k.takes e.bytes = decide (k.tally.bytes + e.bytes.length ≤ n) := by
      unfold Sink.takes
      rw [hk]
      rfl
    have hrest := ih (k := k.write e.bytes) hk
    rw [judgedBy, judged, hrest]
    split
    next hfits =>
      rw [decide_eq_true hfits] at htakes
      rw [htakes, Sink.write_of_takes htakes]
    next hfull =>
      rw [decide_eq_false hfull] at htakes
      rw [htakes, Sink.write_of_refused htakes]

end Emission

/-- What a transition has the machine write whose stack was `before`. -/
def Transition.emission? (set : InstructionSet) (before : Stack) (t : Transition) :
    Option Emission :=
  (set.written? t.instruction before).map fun w => ⟨t.step, t.instruction.op, w.1, w.2⟩

/-- What transitions, the latest first, have the machine write, in order. -/
def emissions (set : InstructionSet) : List Transition → List Emission
  | [] => []
  | t :: earlier =>
    emissions set earlier ++ (t.emission? set (Snapshot.after earlier).stack).toList

theorem emissions_mute (set : InstructionSet) (history : List Transition) :
    emissions set (history.map Transition.mute) = emissions set history := by
  induction history with
  | nil => rfl
  | cons t earlier ih =>
    have hstack : (Snapshot.after (earlier.map Transition.mute)).stack =
        (Snapshot.after earlier).stack := by
      cases earlier <;> rfl
    change emissions set (earlier.map Transition.mute) ++ _ = _
    rw [ih, hstack]
    rfl

/-- The log entry of a transition whose write was refused. -/
def Transition.warning? (s : Setup) (t : Transition) : Option Log.Entry :=
  t.fault.map fun f =>
    s.logEntry .warning t.step ("Execute " ++ t.instruction.op.label ++ ", " ++ f.message)

namespace RunState

variable {g : Grid} {set : InstructionSet} {s : RunState} {e : Emission}

theorem crossed_of_silent (h : (s.transition g set).emission? set s.machine.stack = none) :
    (s.crossed g set).machine.output = s.machine.output ∧ (s.transition g set).fault = none :=
  InstructionSet.execute_of_not_written (m := (s.turn (s.move g)).machine)
    (Option.map_eq_none_iff.mp h)

theorem crossed_of_emission (h : (s.transition g set).emission? set s.machine.stack = some e) :
    (s.crossed g set).machine.output = s.machine.output.write e.bytes ∧
      ∀ setup, (s.transition g set).warning? setup =
        if s.machine.output.takes e.bytes then none
        else some (e.warning setup s.machine.output.cause) := by
  obtain ⟨⟨form, v⟩, hwritten, rfl⟩ := Option.map_eq_some_iff.mp h
  obtain ⟨houtput, hwrite⟩ :=
    InstructionSet.execute_of_written (m := (s.turn (s.move g)).machine) hwritten
  have hfault : (s.transition g set).fault = if s.machine.output.takes (form.bytes v) then none
      else some ⟨form, v, s.machine.output.cause⟩ := hwrite
  refine ⟨houtput, fun setup => ?_⟩
  unfold Transition.warning?
  rw [hfault]
  exact apply_ite (Option.map _) _ _ _

end RunState

/-- An output, `k` at first, that was given what transitions, the latest first, have written; their
faults are the writes that it refused. -/
structure Emitted (s : Setup) (k : Sink) (history : List Transition) (output : Sink) : Prop where
  writes : output = k.writes ((emissions s.instructions history).map Emission.bytes)
  warnings : history.reverse.filterMap (Transition.warning? s) =
    ((Emission.judgedBy k (emissions s.instructions history)).filter (!·.2)).map
      fun j => j.1.warning s k.cause

namespace Emitted

variable {s : Setup} {k output : Sink} {history : List Transition} {t : Transition} {e : Emission}

theorem silent (h : Emitted s k history output)
    (ht : t.emission? s.instructions (Snapshot.after history).stack = none)
    (hfault : t.fault = none) : Emitted s k (t :: history) output := by
  have hsame : emissions s.instructions (t :: history) = emissions s.instructions history := by
    rw [emissions, ht]
    exact List.append_nil _
  have hwarning : t.warning? s = none := congrArg (Option.map _) hfault
  refine ⟨hsame ▸ h.writes, ?_⟩
  rw [hsame, ← h.warnings, List.reverse_cons, List.filterMap_append]
  simp [hwarning]

theorem emission (h : Emitted s k history output)
    (ht : t.emission? s.instructions (Snapshot.after history).stack = some e)
    (hwarning : t.warning? s =
      if output.takes e.bytes then none else some (e.warning s output.cause)) :
    Emitted s k (t :: history) (output.write e.bytes) := by
  have hmore : emissions s.instructions (t :: history) =
      emissions s.instructions history ++ [e] := by
    rw [emissions, ht]
    rfl
  refine ⟨?_, ?_⟩
  · rw [hmore, List.map_append, h.writes]
    exact (Sink.writes_concat _ _ _).symm
  · have hcause : output.cause = k.cause := by rw [h.writes, Sink.writes_cause]
    rw [hmore, Emission.judgedBy_concat, ← h.writes, List.filter_append, List.map_append,
      ← h.warnings, List.reverse_cons, List.filterMap_append]
    -- Both lists gain the warning of `e`, or neither does.
    cases htakes : output.takes e.bytes <;> simp [hwarning, htakes, hcause]

end Emitted

namespace Walk

variable {g : Grid} {s : Setup} {k : Sink} {w : Walk g}

theorem emitted_advance (hw : w.Sound) (h : Emitted s k w.history w.state.machine.output) :
    Emitted s k (w.advance s.instructions).1.history
      (w.advance s.instructions).1.state.machine.output := by
  have hstack : (Snapshot.after w.history).stack = w.state.machine.stack :=
    congrArg Snapshot.stack hw.snapshot.symm
  cases hb : (w.state.move g).blocked with
  | true =>
    rw [advance_of_blocked hw.ready hb]
    exact h
  | false =>
    rw [advance_of_open hw.ready hb, observe_history, observe_state]
    cases hemission : Transition.emission? s.instructions w.state.machine.stack
      (w.state.transition g s.instructions) with
    | none =>
      obtain ⟨houtput, hfault⟩ := RunState.crossed_of_silent hemission
      dsimp only
      rw [houtput]
      exact h.silent (hstack ▸ hemission) hfault
    | some e =>
      obtain ⟨houtput, hwarning⟩ := RunState.crossed_of_emission hemission
      dsimp only
      rw [houtput]
      exact h.emission (hstack ▸ hemission) (hwarning s)

end Walk

theorem Setup.travel_emitted (s : Setup) (trace : Option Sink) (n : Nat) :
    Emitted s s.output (s.travel trace n).1.history (s.travel trace n).1.state.machine.output := by
  refine (Walk.travel_invariant
    (P := fun w _ => w.Sound ∧ Emitted s s.output w.history w.state.machine.output) ?_ n
    ⟨s.outset_sound trace, rfl, rfl⟩).2
  intro w ⟨hsound, hemitted⟩
  exact ⟨hsound.begin.advance _, Walk.emitted_advance hsound.begin hemitted⟩

section Log

variable {s : Setup} {level : Log.Level} {debug : Bool} {o : Outcome} {e : Ending}

theorem warnings_transitionNotes (hlevel : level.keeps .warning = true) (s : Setup) (debug : Bool)
    (t : Transition) :
    (logEntries level (s.transitionNotes debug t)).filter (·.level = .warning) =
      (t.warning? s).toList := by
  unfold Setup.transitionNotes Transition.warning? logEntries
  cases t.fault with
  | none => cases debug <;> cases t.instruction.isIdle <;> rfl
  | some f =>
    have hentry : ∀ message, (s.logEntry .warning t.step message).level = .warning := fun _ => rfl
    cases debug <;> cases t.instruction.isIdle <;> simp [hentry, hlevel]

theorem warnings_transitions (hlevel : level.keeps .warning = true) (s : Setup) (debug : Bool)
    (ts : List Transition) :
    (logEntries level (ts.flatMap (s.transitionNotes debug))).filter (·.level = .warning) =
      ts.filterMap (Transition.warning? s) := by
  unfold logEntries
  rw [List.filterMap_flatMap, List.filter_flatMap, List.filterMap_eq_flatMap_toList]
  exact List.flatMap_congr fun t _ => warnings_transitionNotes hlevel s debug t

/-- The warning of a run that was stopped at its step limit. -/
def Setup.limitWarning (s : Setup) (o : Outcome) : Log.Entry :=
  s.logEntry .warning o.state.steps
    ("Execution terminated after " ++ decimalText s.stepLimit ++
      " steps to prevent infinite loop.")

theorem warnings_notes (hlevel : level.keeps .warning = true) (he : o.ending = some e)
    (s : Setup) (debug : Bool) :
    (logEntries level (s.notes debug o)).filter (·.level = .warning) =
      o.transitions.filterMap (Transition.warning? s) ++
        if e = .stepLimit then [s.limitWarning o] else [] := by
  have happend : ∀ a b, logEntries level (a ++ b) = logEntries level a ++ logEntries level b :=
    fun _ _ => List.filterMap_append
  have htransitions := warnings_transitions hlevel s debug o.transitions
  have hbegin : ∀ message, (logEntries level [.entry (s.logEntry .debug 0 message)]).filter
      (·.level = .warning) = [] := by
    intro message
    cases hdebug : level.keeps .debug <;> simp [logEntries, Setup.logEntry, hdebug]
  have hend : (logEntries level (s.endingNotes o.state.steps e)).filter (·.level = .warning) =
      if e = .stepLimit then [s.limitWarning o] else [] := by
    cases e with
    | stepLimit => simp [logEntries, Setup.endingNotes, Setup.logEntry, Setup.limitWarning, hlevel]
    | blocked =>
      cases hdebug : level.keeps .debug <;>
        simp [logEntries, Setup.endingNotes, Setup.logEntry, hdebug]
    | canceled cause => rfl
    | untraced failure => rfl
  unfold Setup.notes
  rw [he]
  dsimp only
  rw [happend, happend, List.filter_append, List.filter_append, hbegin, htransitions, hend]
  rfl

end Log

/-- What a run has its machine write, in order. -/
def Outcome.emissions (set : InstructionSet) (o : Outcome) : List Emission :=
  Codel.emissions set o.transitions.reverse

end Codel
