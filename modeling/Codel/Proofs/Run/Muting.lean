import Codel.Proofs.Machine.Emission
import Codel.Proofs.Run.Recording

namespace Codel

/-- The transition without the fault of its write. -/
def Transition.mute (t : Transition) : Transition := { t with fault := none }

namespace RunState

def mute (s : RunState) : RunState := { s with machine := s.machine.mute }

theorem change_mute (s : RunState) (status : Status) :
    (s.change status).mute = s.mute.change status := by
  unfold change
  change _ = if s.status.isTerminated then _ else _
  split <;> rfl

theorem executed_mute (g : Grid) (set : InstructionSet) (s : RunState) :
    (s.executed g set).1.mute = (s.mute.executed g set).1.mute :=
  set.execute_mute _ (s.turn (s.move g)).machine

theorem crossed_mute (g : Grid) (set : InstructionSet) (s : RunState) :
    (s.crossed g set).mute = (s.mute.crossed g set).mute :=
  congrArg (fun m => ({ s with pos := (s.move g).target, machine := m } : RunState))
    (s.executed_mute g set)

theorem transition_mute (g : Grid) (set : InstructionSet) (s : RunState) :
    (s.transition g set).mute = (s.mute.transition g set).mute := by
  obtain ⟨hstack, hdp, hcc, _⟩ := Machine.mute_eq_iff.mp (s.executed_mute g set)
  unfold transition Transition.mute
  dsimp only
  rw [hstack, hdp, hcc]
  rfl

end RunState

namespace Walk

variable {g : Grid} {set : InstructionSet} {w w' : Walk g}

/-- The walk without what the program has written. -/
def mute (w : Walk g) : Walk g :=
  { w with state := w.state.mute, history := w.history.map Transition.mute }

theorem observe_mute (w : Walk g) (t : Transition) :
    w.mute.observe t.mute = ((w.observe t).1.mute, (w.observe t).2) := by
  obtain ⟨state, locator, trace, counters, history⟩ := w
  cases trace <;> rfl

theorem landed_mute (set : InstructionSet) (w : Walk g) :
    (w.landed set).mute =
      { w.mute.landed set with state := (w.mute.state.crossed g set).mute } := by
  have hstate : (w.landed set).state.mute = (w.mute.state.crossed g set).mute :=
    w.state.crossed_mute g set
  unfold Walk.mute at *
  rw [hstate]
  rfl

theorem advance_mute_of_blocked (h : w.Ready) (hb : (w.state.move g).blocked = true) :
    ((w.advance set).1.mute, (w.advance set).2) =
      ({ w.mute with
        state := w.mute.state.turn (w.mute.state.move g)
        locator := w.mute.nextLocator }, some .blocked) := by
  rw [advance_of_blocked h hb]
  rfl

theorem advance_mute_of_open (h : w.Ready) (hb : (w.state.move g).blocked = false) :
    ((w.advance set).1.mute, (w.advance set).2) =
      { w.mute.landed set with state := (w.mute.state.crossed g set).mute }.observe
        (w.mute.state.transition g set).mute := by
  rw [advance_eq_observe h hb, ← observe_mute, landed_mute, RunState.transition_mute]
  rfl

/-- Walks that differ in their writes make the same turn. -/
theorem advance_mute (h : w.Ready) (h' : w'.Ready) (hsame : w'.mute = w.mute)
    (set : InstructionSet) :
    (w'.advance set).1.mute = (w.advance set).1.mute ∧ (w'.advance set).2 = (w.advance set).2 := by
  have hmove : (w'.state.move g).blocked = (w.state.move g).blocked := by
    change (w'.mute.state.move g).blocked = (w.mute.state.move g).blocked
    rw [hsame]
  apply Prod.mk.inj
  cases hb : (w.state.move g).blocked with
  | true => rw [advance_mute_of_blocked h hb, advance_mute_of_blocked h' (hmove.trans hb), hsame]
  | false => rw [advance_mute_of_open h hb, advance_mute_of_open h' (hmove.trans hb), hsame]

/-- Walks that differ at most in what the program has written. -/
structure Muted (w w' : Walk g) : Prop where
  ready : w.Ready
  ready' : w'.Ready
  same : w'.mute = w.mute

theorem Muted.tick (h : w.Muted w') : w.tick.Muted w'.tick :=
  ⟨⟨h.ready.locator, h.ready.oriented⟩, ⟨h.ready'.locator, h.ready'.oriented⟩,
    congrArg Walk.tick h.same⟩

theorem Muted.begin (h : w.Muted w') : w.begin.Muted w'.begin :=
  ⟨h.ready.begin, h.ready'.begin, congrArg Walk.begin h.same⟩

theorem Muted.steps (h : w.Muted w') : w'.state.steps = w.state.steps := by
  change w'.mute.state.steps = w.mute.state.steps
  rw [h.same]

theorem Muted.turn (h : w.Muted w') (set : InstructionSet) :
    (w.begin.advance set).1.Muted (w'.begin.advance set).1 ∧
      (w'.begin.advance set).2 = (w.begin.advance set).2 := by
  have hbegin := h.begin
  obtain ⟨hsame, hending⟩ := advance_mute hbegin.ready hbegin.ready' hbegin.same set
  exact ⟨⟨hbegin.ready.advance set, hbegin.ready'.advance set, hsame⟩, hending⟩

end Walk

/-- The outcome without what the program has written and without the faults of its writes. -/
def Outcome.mute (o : Outcome) : Outcome :=
  { o with state := o.state.mute, transitions := o.transitions.map Transition.mute }

theorem Walk.outcome_mute {g : Grid} (w : Walk g) (e : Ending) :
    (w.outcome e).mute = w.mute.outcome e := by
  have hstate := w.state.change_mute e.status
  have hstatus : (w.state.change e.status).status = (w.state.mute.change e.status).status := by
    rw [← hstate]
    rfl
  unfold Outcome.mute Walk.outcome
  dsimp only
  rw [hstate, hstatus, List.map_reverse]
  rfl

/-- Output and prompt show in what a run writes and nowhere else. -/
theorem Setup.walk_mute (s : Setup) (output : Sink) (prompt trace : Option Sink) :
    (({ s with output := output, prompt := prompt } : Setup).walk trace).mute =
      (s.walk trace).mute := by
  have houtset : (s.outset trace).Muted
      (({ s with output := output, prompt := prompt } : Setup).outset trace) :=
    ⟨s.outset_ready trace, outset_ready _ trace, rfl⟩
  obtain ⟨htravel, hending⟩ := Walk.travel_side_by_side (fun _ _ hw => hw.turn s.instructions)
    (s.turns (s.stepLimit - 1) 0) houtset
  obtain ⟨hwalk, hlast⟩ := Walk.close_side_by_side s { s with output := output, prompt := prompt }
    rfl (fun _ _ hw => hw.tick) (fun _ _ hw => hw.steps) htravel hending
  rw [walk_eq_close, walk_eq_close, Walk.outcome_mute, Walk.outcome_mute]
  exact congrArg₂ Walk.outcome hwalk.same hlast

end Codel
