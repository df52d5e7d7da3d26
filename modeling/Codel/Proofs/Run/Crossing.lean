import Codel.Proofs.Grid.Cache
import Codel.Proofs.Machine.Executor

namespace Codel

theorem Instruction.between_same {b b' c c' : Block} (hb : b.Same b') (hc : c.Same c') :
    Instruction.between b c = Instruction.between b' c' := by
  have hsize : b.size = b'.size := hb.perm.length_eq
  unfold Instruction.between
  rw [hb.colour, hc.colour, hsize]

namespace RunState

variable (g : Grid) (set : InstructionSet) (s : RunState)

/-- The way out of the block that a run stands in. -/
def move : Move := g.navigate (g.blockAt s.pos).codels s.machine.dp s.machine.cc

/-- The instruction of leaving that way. -/
def instruction : Instruction :=
  Instruction.between (g.blockAt s.pos) (g.blockAt (s.move g).target)

/-- What executing it with the pointers of the move makes of the machine. -/
def executed : Machine × Option WriteFault :=
  set.execute (s.instruction g) (s.turn (s.move g)).machine

def crossed : RunState := { s with pos := (s.move g).target, machine := (s.executed g set).1 }

def transition : Transition where
  step := s.steps
  instruction := s.instruction g
  pos := (s.move g).target
  colour := g.colourAt (s.move g).target
  dp := (s.executed g set).1.dp
  cc := (s.executed g set).1.cc
  stack := (s.executed g set).1.stack
  fault := (s.executed g set).2

variable {s}

theorem move_oriented (h : s.machine.Oriented) : (s.turn (s.move g)).machine.Oriented := by
  have := Grid.navigate_pointers (g := g) h.dp h.cc (g.blockAt s.pos).codels
  exact ⟨this.1, this.2⟩

theorem crossed_oriented (h : s.machine.Oriented) : (s.crossed g set).machine.Oriented :=
  InstructionSet.execute_oriented (move_oriented g h) set _

end RunState

namespace Walk

variable {g : Grid} {set : InstructionSet} {w : Walk g}

/-- What a locator remembers after the finds of a turn. -/
def nextLocator (w : Walk g) : Locator g :=
  let found := (w.locator.find w.state.pos).2
  if (w.state.move g).blocked then found else (found.find (w.state.move g).target).2

/-- One turn as position and machine determine it, the locator apart. -/
def cross (set : InstructionSet) (w : Walk g) (l : Locator g) : Walk g × Option Ending :=
  if (w.state.move g).blocked then
    ({ w with state := w.state.turn (w.state.move g), locator := l }, some .blocked)
  else
    { w with
      state := w.state.crossed g set
      locator := l
      counters := w.counters.count (w.state.instruction g) }.observe (w.state.transition g set)

theorem nextLocator_valid (hl : w.locator.Valid) : w.nextLocator.Valid := by
  have hfound := (hl.find w.state.pos).2
  unfold nextLocator
  dsimp only
  split
  · exact hfound
  · exact (hfound.find _).2

/-- A turn makes the same crossing whatever is remembered. -/
theorem advance_eq (set : InstructionSet) (hl : w.locator.Valid) (hm : w.state.machine.Oriented) :
    w.advance set = w.cross set w.nextLocator := by
  -- A cached block lists its codels in another order, which neither the way out nor the size shows.
  obtain ⟨hcurrent, hfound⟩ := hl.find w.state.pos
  have hmove : g.navigate (w.locator.find w.state.pos).1.codels w.state.machine.dp
      w.state.machine.cc = w.state.move g := Grid.navigate_perm hm.cc hcurrent.perm
  obtain ⟨hnext, _⟩ := hfound.find (w.state.move g).target
  have hinstruction := Instruction.between_same hcurrent hnext
  unfold advance cross nextLocator
  dsimp only
  rw [hmove]
  split
  · rfl
  · rw [hinstruction]
    rfl

/-- A transition is added to the history and given to the trace, and nothing else is touched. -/
theorem observe_fst (w : Walk g) (t : Transition) :
    (w.observe t).1 = { w with
      history := t :: w.history, trace := w.trace.map fun k => k.write t.record.encode } := by
  obtain ⟨state, locator, trace, counters, history⟩ := w
  cases trace <;> rfl

theorem observe_state (w : Walk g) (t : Transition) : (w.observe t).1.state = w.state := by
  rw [observe_fst]

theorem observe_history (w : Walk g) (t : Transition) :
    (w.observe t).1.history = t :: w.history := by
  rw [observe_fst]

theorem observe_locator (w : Walk g) (t : Transition) : (w.observe t).1.locator = w.locator := by
  rw [observe_fst]

/-- Everything that a turn can do to a run. -/
theorem advance_cases (set : InstructionSet) (hl : w.locator.Valid)
    (hm : w.state.machine.Oriented) :
    ((w.state.move g).blocked = true ∧
      w.advance set = ({ w with
        state := w.state.turn (w.state.move g), locator := w.nextLocator }, some .blocked)) ∨
    ((w.state.move g).blocked = false ∧
      (w.advance set).1.state = w.state.crossed g set ∧
      (w.advance set).1.history = w.state.transition g set :: w.history ∧
      (w.advance set).1.locator = w.nextLocator) := by
  rw [advance_eq set hl hm]
  unfold cross
  split
  next hb => exact Or.inl ⟨hb, rfl⟩
  next hb =>
    refine Or.inr ⟨Bool.eq_false_iff.mpr hb, ?_, ?_, ?_⟩
    · rw [observe_state]
    · rw [observe_history]
    · rw [observe_locator]

/-- What a run relies on at every turn. -/
structure Ready (w : Walk g) : Prop where
  locator : w.locator.Valid
  oriented : w.state.machine.Oriented

theorem Ready.advance (h : w.Ready) (set : InstructionSet) : (w.advance set).1.Ready := by
  rcases advance_cases set h.locator h.oriented with ⟨_, heq⟩ | ⟨_, hs, _, hl⟩
  · rw [heq]
    exact ⟨nextLocator_valid h.locator, RunState.move_oriented g h.oriented⟩
  · refine ⟨?_, ?_⟩
    · rw [hl]
      exact nextLocator_valid h.locator
    · rw [hs]
      exact RunState.crossed_oriented g set h.oriented

end Walk

namespace Setup

def outset (s : Setup) (trace : Option Sink) : Walk s.program.grid where
  state := { machine := s.machine, status := .running }
  locator := Locator.start _ s.cached
  trace := trace

theorem outset_ready (s : Setup) (trace : Option Sink) : (s.outset trace).Ready where
  locator := Locator.valid_start _ s.cached
  oriented :=
    ⟨show Direction.right ∈ Direction.compass by decide, show Chooser.left ∈ Chooser.both by decide⟩

end Setup

end Codel
