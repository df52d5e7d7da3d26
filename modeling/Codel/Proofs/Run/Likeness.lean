import Codel.Proofs.Grid.Likeness
import Codel.Proofs.Run.Logbook
import Codel.Proofs.Run.Recording

namespace Codel

/-- The transition with its colour changed. -/
def Transition.recolour (f : Colour → Colour) (t : Transition) : Transition :=
  { t with colour := f t.colour }

namespace RunState

variable {f : Colour → Colour} {Q : Pos → Prop} {g g' : Grid} {s : RunState}

theorem move_alike (h : g.Likeness f Q g') (hs : Q s.pos) (ho : s.machine.Oriented) :
    s.move g' = s.move g := h.navigate_blockAt hs ho.cc

theorem stands_target (h : g.Likeness f Q g') (hb : (s.move g).blocked = false) :
    Q (s.move g).target := h.covers _ (Grid.open_navigate hb)

theorem blocked_of_closed (hg : ∀ p, ¬ g.Open p) (s : RunState) : (s.move g).blocked = true := by
  by_contra hopen
  exact hg _ (Grid.open_navigate (Bool.eq_false_iff.mpr hopen))

section Crossing

variable (h : g.Likeness f Q g') (hs : Q s.pos) (ho : s.machine.Oriented)
  (hb : (s.move g).blocked = false)
include h hs ho hb

theorem instruction_alike : s.instruction g' = s.instruction g := by
  unfold instruction
  rw [move_alike h hs ho]
  exact h.between_blockAt hs (stands_target h hb)

theorem executed_alike (set : InstructionSet) : s.executed g' set = s.executed g set := by
  unfold executed
  rw [instruction_alike h hs ho hb, move_alike h hs ho]

theorem crossed_alike (set : InstructionSet) : s.crossed g' set = s.crossed g set := by
  unfold crossed
  rw [executed_alike h hs ho hb, move_alike h hs ho]

theorem transition_alike (set : InstructionSet) :
    s.transition g' set = (s.transition g set).recolour f := by
  have hcolour := h.colour _ (stands_target h hb)
  unfold transition Transition.recolour
  rw [executed_alike h hs ho hb, instruction_alike h hs ho hb, move_alike h hs ho, hcolour]

end Crossing

end RunState

namespace Walk

variable {f : Colour → Colour} {Q : Pos → Prop} {g g' : Grid} {w : Walk g} {w' : Walk g'}
  {set : InstructionSet}

/-- Walks over two grids, neither of them traced, that have come equally far. -/
structure Alike (f : Colour → Colour) (Q : Pos → Prop) (w : Walk g) (w' : Walk g') : Prop where
  ready : w.Ready
  ready' : w'.Ready
  stands : Q w.state.pos
  state : w'.state = w.state
  counters : w'.counters = w.counters
  history : w'.history = w.history.map (Transition.recolour f)
  untraced : w.trace = none
  untraced' : w'.trace = none

/-- Walks that are alike, both of them going on or both having ended the same way. -/
def Together (f : Colour → Colour) (Q : Pos → Prop) (r : Walk g × Option Ending)
    (r' : Walk g' × Option Ending) : Prop :=
  r.1.Alike f Q r'.1 ∧ r'.2 = r.2

theorem Alike.tick (h : w.Alike f Q w') : w.tick.Alike f Q w'.tick :=
  ⟨⟨h.ready.locator, h.ready.oriented⟩, ⟨h.ready'.locator, h.ready'.oriented⟩, h.stands,
    congrArg RunState.tick h.state, h.counters, h.history, h.untraced, h.untraced'⟩

theorem Alike.begin (h : w.Alike f Q w') : w.begin.Alike f Q w'.begin :=
  ⟨h.ready.begin, h.ready'.begin, h.stands, congrArg RunState.tick h.state,
    congrArg Counters.step h.counters, h.history, h.untraced, h.untraced'⟩

theorem observe_untraced (h : w.trace = none) (t : Transition) :
    w.observe t = ({ w with history := t :: w.history }, none) := by
  unfold observe
  rw [h]

theorem Alike.observe (h : w.Alike f Q w') (t : Transition) :
    Together f Q (w.observe t) (w'.observe (t.recolour f)) := by
  have hhistory : t.recolour f :: w'.history = (t :: w.history).map (Transition.recolour f) :=
    congrArg (t.recolour f :: ·) h.history
  rw [observe_untraced h.untraced, observe_untraced h.untraced']
  exact ⟨⟨⟨h.ready.locator, h.ready.oriented⟩, ⟨h.ready'.locator, h.ready'.oriented⟩, h.stands,
    h.state, h.counters, hhistory, h.untraced, h.untraced'⟩, rfl⟩

theorem Alike.advance_of_blocked (h : w.Alike f Q w') (hb : (w.state.move g).blocked = true)
    (hb' : (w'.state.move g').blocked = true) :
    Together f Q (w.advance set) (w'.advance set) := by
  have hnext := h.ready.advance set
  have hnext' := h.ready'.advance set
  have hturn := RunState.turn_of_blocked h.ready.oriented hb
  have hturn' := RunState.turn_of_blocked h.ready'.oriented hb'
  rw [Walk.advance_of_blocked h.ready hb, hturn] at hnext ⊢
  rw [Walk.advance_of_blocked h.ready' hb', hturn'] at hnext' ⊢
  exact ⟨⟨hnext, hnext', h.stands, h.state, h.counters, h.history, h.untraced,
    h.untraced'⟩, rfl⟩

/-- Every turn of walks over the two grids keeps them alike. -/
def InStep (f : Colour → Colour) (Q : Pos → Prop) (g g' : Grid) (set : InstructionSet) : Prop :=
  ∀ (w : Walk g) (w' : Walk g'), w.Alike f Q w' → Together f Q (w.advance set) (w'.advance set)

theorem inStep_of_likeness (hg : g.Likeness f Q g') (set : InstructionSet) :
    InStep f Q g g' set := by
  intro w w' h
  have ho := h.ready.oriented
  have hmove : w'.state.move g' = w.state.move g := by
    rw [h.state]
    exact RunState.move_alike hg h.stands ho
  cases hb : (w.state.move g).blocked with
  | true => exact h.advance_of_blocked hb (hmove ▸ hb)
  | false =>
    rw [advance_of_open h.ready hb, advance_of_open h.ready' (hmove ▸ hb), h.state,
      RunState.transition_alike hg h.stands ho hb, RunState.crossed_alike hg h.stands ho hb,
      RunState.instruction_alike hg h.stands ho hb]
    apply Alike.observe
    have ho' := RunState.crossed_oriented g set ho
    exact ⟨⟨nextLocator_valid h.ready.locator, ho'⟩, ⟨nextLocator_valid h.ready'.locator, ho'⟩,
      RunState.stands_target hg hb, rfl, congrArg (Counters.count · _) h.counters, h.history,
      h.untraced, h.untraced'⟩

/-- Where nothing can be entered, both runs are closed in from the first turn on. -/
theorem inStep_of_closed (hg : ∀ p, ¬ g.Open p) (hg' : ∀ p, ¬ g'.Open p) (f : Colour → Colour)
    (Q : Pos → Prop) (set : InstructionSet) : InStep f Q g g' set := by
  intro w w' h
  exact h.advance_of_blocked (RunState.blocked_of_closed hg _) (RunState.blocked_of_closed hg' _)

theorem Alike.travel (hstep : InStep f Q g g' set) (h : w.Alike f Q w') (n : Nat) :
    Together f Q (travel set n w) (travel set n w') :=
  travel_side_by_side (fun _ _ hw => hstep _ _ hw.begin) n h

theorem Together.close {r : Walk g × Option Ending} {r' : Walk g' × Option Ending}
    (h : Together f Q r r') (s s' : Setup) (hs : s'.cancellation = s.cancellation) :
    (close s r).1.Alike f Q (close s' r').1 ∧ (close s' r').2 = (close s r).2 :=
  close_side_by_side s s' hs (fun _ _ hw => hw.tick)
    (fun _ _ hw => congrArg RunState.steps hw.state) h.1 h.2

end Walk

/-- Outcomes that differ in the colours of their transitions, and in what was written to a trace. -/
structure Outcome.Alike (f : Colour → Colour) (o o' : Outcome) : Prop where
  state : o'.state = o.state
  ending : o'.ending = o.ending
  error : o'.error = o.error
  transitions : o'.transitions = o.transitions.map (Transition.recolour f)
  counters : o'.counters = o.counters

theorem Walk.Alike.outcome {f : Colour → Colour} {Q : Pos → Prop} {g g' : Grid} {w : Walk g}
    {w' : Walk g'} {e e' : Ending} (h : w.Alike f Q w') (he : e' = e) :
    (w.outcome e).Alike f (w'.outcome e') := by
  unfold Walk.outcome
  rw [he, h.state, h.counters, h.history]
  exact ⟨rfl, rfl, rfl, List.map_reverse.symm, rfl⟩

namespace Setup

variable {f : Colour → Colour} {Q : Pos → Prop} {s : Setup} {g : Grid}

/-- The same run over another grid. -/
def onGrid (s : Setup) (g : Grid) : Setup := { s with program := { s.program with grid := g } }

/-- A trace takes as many writes of the one run as of the other, the header first and then record
after record, before it refuses one. -/
def TracedAsFar (s s' : Setup) : Prop :=
  ∀ k, s.trace = some k → k.fitting s'.traceWrites = k.fitting s.traceWrites

/-- A setup whose trace, if it has one, does not go by what is written to it. -/
def Heedless (s : Setup) : Prop := ∀ k, s.trace = some k → k.Heedless

/-- Setups that are stopped alike and whose runs, left untraced, go side by side. -/
structure Alike (f : Colour → Colour) (Q : Pos → Prop) (s s' : Setup) : Prop where
  machine : s'.machine = s.machine
  stepLimit : s'.stepLimit = s.stepLimit
  cancellation : s'.cancellation = s.cancellation
  trace : s'.trace = s.trace
  travel : ∀ n, Walk.Together f Q (s.travel none n) (s'.travel none n)

theorem alike_onGrid (hstep : Walk.InStep f Q s.program.grid g s.instructions)
    (hstart : Q Pos.origin) : s.Alike f Q (s.onGrid g) where
  machine := rfl
  stepLimit := rfl
  cancellation := rfl
  trace := rfl
  travel := Walk.Alike.travel hstep ⟨s.outset_ready none, (s.onGrid g).outset_ready none, hstart,
    rfl, rfl, rfl, rfl, rfl⟩

namespace Alike

variable {s' : Setup} {k : Sink} (h : s.Alike f Q s')
include h

theorem turns (left steps : Nat) : s'.turns left steps = s.turns left steps := by
  unfold Setup.turns
  rw [h.cancellation]

theorem length_made : s'.made.length = s.made.length := by
  unfold made
  rw [h.turns, h.stepLimit, (h.travel _).1.history, List.length_map]

theorem tracedAsFar (hheedless : s.Heedless) : s.TracedAsFar s' := by
  intro k hk
  apply (hheedless k hk).abreast.fitting
  rw [length_traceWrites, length_traceWrites, h.length_made]

theorem execute_untraced : ({ s with trace := none } : Setup).execute.Alike f
    ({ s' with trace := none } : Setup).execute := by
  obtain ⟨hwalk, hending⟩ :=
    (h.travel (s.turns (s.stepLimit - 1) 0)).close s s' h.cancellation
  rw [Setup.execute_untraced, Setup.execute_untraced, h.turns, h.stepLimit]
  exact hwalk.outcome hending

/-- Runs whose traces refuse a write, the header or the record of a transition that both make. -/
theorem execute_refused (htrace : s.trace = some k)
    (hsame : k.fitting s'.traceWrites = k.fitting s.traceWrites)
    (hlt : k.fitting s.traceWrites < s.traceWrites.length) : s.execute.Alike f s'.execute := by
  have htrace' := h.trace.trans htrace
  rw [s.length_traceWrites] at hlt
  cases hfit : k.fitting s.traceWrites with
  | zero =>
    have hheader := Sink.fitting_cons_eq_zero_iff.mp hfit
    have hheader' := Sink.fitting_cons_eq_zero_iff.mp (hsame.trans hfit)
    rw [execute_of_refused htrace hheader, execute_of_refused htrace' hheader', h.machine]
    exact ⟨rfl, rfl, rfl, rfl, rfl⟩
  | succ m =>
    rw [hfit, Nat.succ_lt_succ_iff] at hlt
    have hlt' := hlt.trans_eq h.length_made.symm
    have hstopped := (h.travel (m + 1)).1.outcome
      (rfl : Ending.untraced (.step (Int64.ofNat (m + 1)) k.cause) = _)
    rw [execute_of_fitting htrace hlt hfit, execute_of_fitting htrace' hlt' (hsame.trans hfit)]
    exact ⟨hstopped.state, hstopped.ending, hstopped.error, hstopped.transitions,
      hstopped.counters⟩

theorem execute_recorded (htrace : s.trace = some k)
    (hall : k.TakesAll s.traceWrites) (hall' : k.TakesAll s'.traceWrites) :
    s.execute.Alike f s'.execute := by
  have hbare := h.execute_untraced
  rw [Setup.execute_recorded htrace hall, Setup.execute_recorded (h.trace.trans htrace) hall']
  exact ⟨hbare.state, hbare.ending, hbare.error, hbare.transitions, hbare.counters⟩

/-- Where a trace comes equally far with both runs, they come to outcomes that are alike. -/
theorem execute (hfar : s.TracedAsFar s') : s.execute.Alike f s'.execute := by
  cases htrace : s.trace with
  | none =>
    have hbare := h.execute_untraced
    rwa [untraced_of_none htrace, untraced_of_none (h.trace.trans htrace)] at hbare
  | some k =>
    have hsame := hfar k htrace
    rcases (k.fitting_le s.traceWrites).lt_or_eq with hlt | hall
    · exact h.execute_refused htrace hsame hlt
    · have hall' : k.fitting s'.traceWrites = s'.traceWrites.length := by
        rw [hsame, hall, length_traceWrites, length_traceWrites, h.length_made]
      exact h.execute_recorded htrace (Sink.takesAll_iff_fitting.mpr hall)
        (Sink.takesAll_iff_fitting.mpr hall')

end Alike

/-- A run to and fro between two codels, with room for `room` bytes in its trace. -/
def toAndFro (room stepLimit : Nat) : Setup where
  program := { grid := Grid.ofFn 2 1 fun x _ => ⟨x⟩ }
  run := RunId.nil
  stepLimit := stepLimit
  trace := some (Sink.closing room)

end Setup

end Codel
