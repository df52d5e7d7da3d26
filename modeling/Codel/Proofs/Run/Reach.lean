import Codel.Proofs.Run.Crossing

namespace Codel

namespace RunState

theorem exists_change_eq (s : RunState) (status : Status) :
    ∃ final, s.change status = { s with status := final } := by
  unfold change
  split
  · exact ⟨s.status, rfl⟩
  · exact ⟨status, rfl⟩

theorem change_pos (s : RunState) (status : Status) : (s.change status).pos = s.pos := by
  obtain ⟨final, h⟩ := s.exists_change_eq status
  rw [h]

theorem change_machine (s : RunState) (status : Status) :
    (s.change status).machine = s.machine := by
  obtain ⟨final, h⟩ := s.exists_change_eq status
  rw [h]

theorem change_steps (s : RunState) (status : Status) : (s.change status).steps = s.steps := by
  obtain ⟨final, h⟩ := s.exists_change_eq status
  rw [h]

end RunState

namespace Walk

variable {g : Grid} {w : Walk g} {s : Setup}

def tick (w : Walk g) : Walk g := { w with state := w.state.tick }

def begin (w : Walk g) : Walk g := { w.tick with counters := w.counters.step }

theorem loop_canceled {cause : CancelCause} (h : s.canceled? w.state.steps = some cause)
    (left : Nat) : loop s left w = (w, .canceled cause) := by
  unfold loop
  rw [h]

theorem loop_zero (h : s.canceled? w.state.steps = none) : loop s 0 w = (w.tick, .stepLimit) := by
  unfold loop
  rw [h]
  rfl

theorem loop_succ (h : s.canceled? w.state.steps = none) (left : Nat) :
    loop s (left + 1) w =
      match w.begin.advance s.instructions with
      | (w, some ending) => (w, ending)
      | (w, none) => loop s left w := by
  conv => lhs; unfold loop
  rw [h]
  rfl

theorem Ready.begin (h : w.Ready) : w.begin.Ready := ⟨h.locator, h.oriented⟩

def outcome (w : Walk g) (ending : Ending) : Outcome where
  state := w.state.change ending.status
  ending := some ending
  error := ending.error? w.state.steps
  transitions := w.history.reverse
  trace := w.trace
  counters := w.counters.leave (w.state.change ending.status).status

end Walk

namespace Setup

theorem walk_eq_outcome (s : Setup) (trace : Option Sink) :
    s.walk trace = (Walk.loop s (s.stepLimit - 1) (s.outset trace)).1.outcome
      (Walk.loop s (s.stepLimit - 1) (s.outset trace)).2 := rfl

/-- The walks at the head of a turn, `left` more turns of which may move. -/
inductive Reach (s : Setup) (trace : Option Sink) : Nat → Walk s.program.grid → Prop
  | start : Reach s trace (s.stepLimit - 1) (s.outset trace)
  | turn {left w} : Reach s trace (left + 1) w → s.canceled? w.state.steps = none →
      (w.begin.advance s.instructions).2 = none →
      Reach s trace left (w.begin.advance s.instructions).1

/-- The walks that a run comes through: at the head of a turn, when the step is counted and when the
way out has been tried. -/
inductive Visits (s : Setup) (trace : Option Sink) : Walk s.program.grid → Prop
  | head {left w} : Reach s trace left w → Visits s trace w
  | counted {left w} : Reach s trace left w → s.canceled? w.state.steps = none →
      Visits s trace w.tick
  | tried {left w} : Reach s trace (left + 1) w → s.canceled? w.state.steps = none →
      Visits s trace (w.begin.advance s.instructions).1

variable {s : Setup} {trace : Option Sink} {left : Nat} {w : Walk s.program.grid}
  {P : Walk s.program.grid → Prop}

theorem Reach.visits_loop (h : Reach s trace left w) : Visits s trace (Walk.loop s left w).1 := by
  induction left generalizing w with
  | zero =>
    cases hc : s.canceled? w.state.steps with
    | some cause =>
      rw [Walk.loop_canceled hc]
      exact .head h
    | none =>
      rw [Walk.loop_zero hc]
      exact .counted h hc
  | succ left ih =>
    cases hc : s.canceled? w.state.steps with
    | some cause =>
      rw [Walk.loop_canceled hc]
      exact .head h
    | none =>
      have htried := Visits.tried h hc
      have hturn := Reach.turn h hc
      rw [Walk.loop_succ hc]
      cases hout : w.begin.advance s.instructions with
      | mk after ending =>
        rw [hout] at htried hturn
        cases ending with
        | some ending => exact htried
        | none => exact ih (hturn rfl)

theorem walk_visits (s : Setup) (trace : Option Sink) :
    ∃ w ending, Visits s trace w ∧ s.walk trace = w.outcome ending :=
  ⟨_, _, Reach.start.visits_loop, walk_eq_outcome s trace⟩

/-- So a run ends where one of these walks stands, with the machine and the transitions of it, also
if it did not begin. -/
theorem execute_visits (s : Setup) : ∃ trace w, Visits s trace w ∧
    s.execute.state.pos = w.state.pos ∧ s.execute.state.machine = w.state.machine ∧
    s.execute.transitions = w.history.reverse := by
  have hwalk : ∀ trace, ∃ w, Visits s trace w ∧ (s.walk trace).state.pos = w.state.pos ∧
      (s.walk trace).state.machine = w.state.machine ∧
      (s.walk trace).transitions = w.history.reverse := by
    intro trace
    obtain ⟨w, ending, hvisits, heq⟩ := walk_visits s trace
    rw [heq]
    refine ⟨w, hvisits, ?_, ?_, rfl⟩
    · exact RunState.change_pos w.state ending.status
    · exact RunState.change_machine w.state ending.status
  unfold execute
  split
  next => exact ⟨none, hwalk none⟩
  next sink _ =>
    dsimp only
    split
    · exact ⟨_, hwalk _⟩
    · -- Without its header a run is left as it would stand before its first turn.
      exact ⟨none, s.outset none, .head .start, rfl, rfl, rfl⟩

/-- What holds at the outset and is kept by every turn holds at the head of every turn. -/
theorem Reach.invariant (h : Reach s trace left w) (hstart : P (s.outset trace))
    (hturn : ∀ w, P w → P (w.begin.advance s.instructions).1) : P w := by
  induction h with
  | start => exact hstart
  | turn _ _ _ ih => exact hturn _ ih

theorem Visits.invariant (h : Visits s trace w) (hstart : P (s.outset trace))
    (htick : ∀ w, P w → P w.tick) (hturn : ∀ w, P w → P (w.begin.advance s.instructions).1) :
    P w := by
  cases h with
  | head hw => exact hw.invariant hstart hturn
  | counted hw _ => exact htick _ (hw.invariant hstart hturn)
  | tried hw _ => exact hturn _ (hw.invariant hstart hturn)

end Setup

end Codel
