import Codel.Proofs.Run.Growth

namespace Codel

namespace Trace.Step

/-- A record that shows where a run stands and what its stack and pointers are. -/
structure Shows (r : Trace.Step) (p : Pos) (m : Machine) : Prop where
  x : r.x = p.x
  y : r.y = p.y
  dp : r.dp = Bytes.ofString m.dp.name
  cc : r.cc = Bytes.ofString m.cc.name
  stack : r.stack = some m.stack.values

/-- The `i`-th record of a run that stood at `p` with machine `m`: the way out of the block there
was open, and the operation `op` of that crossing has made `m'` of the machine. The empty operation
is left to no executor, whatever the set holds for it. -/
structure Logs (g : Grid) (set : InstructionSet) (i : Nat) (p : Pos) (m : Machine)
    (r : Trace.Step) (move : Move) (op : OpCode) (m' : Machine) : Prop where
  step : r.step = Int64.ofNat i
  way : g.navigate (g.blockAt p).codels m.dp m.cc = move
  way_open : move.blocked = false
  colour : r.colour = Bytes.ofString (g.colourAt move.target).name
  decoded : OpCode.between (g.colourAt p) (g.colourAt move.target) = op
  label : r.op = Bytes.ofString op.label
  blockSize : r.blockSize = Int64.ofNat (g.blockAt p).size
  idle : op = OpCode.none → m' = { m with dp := move.dp, cc := move.cc }
  executed : op ≠ OpCode.none →
    m' = ((set.executor op).run op (g.blockAt p).size { m with dp := move.dp, cc := move.cc }).1
  shows : r.Shows move.target m'

end Trace.Step

/-- Records that log a run from its first step on, and where the run stands after them. -/
inductive Logged (g : Grid) (set : InstructionSet) (start : Machine) :
    List Trace.Step → Pos → Machine → Prop
  | outset : Logged g set start [] Pos.origin start
  | next {rs p m r move op m'} : Logged g set start rs p m →
      Trace.Step.Logs g set (rs.length + 1) p m r move op m' →
      Logged g set start (rs ++ [r]) move.target m'

namespace Logged

variable {g : Grid} {set : InstructionSet} {start m : Machine} {rs : List Trace.Step} {p : Pos}
  {r : Trace.Step}

theorem shows (h : Logged g set start rs p m) (hr : rs.getLast? = some r) : r.Shows p m := by
  cases h with
  | outset => simp at hr
  | next _ hlogs =>
    rw [List.getLast?_concat, Option.some.injEq] at hr
    exact hr ▸ hlogs.shows

theorem step (h : Logged g set start rs p m) {i : Nat} (hr : rs[i]? = some r) :
    r.step = Int64.ofNat (i + 1) := by
  induction h with
  | outset => simp at hr
  | @next rs p m r' move op m' _ hlogs ih =>
    rcases Nat.lt_trichotomy i rs.length with hlt | rfl | hlt
    · rw [List.getElem?_append_left hlt] at hr
      exact ih hr
    · rw [List.getElem?_concat_length, Option.some.injEq] at hr
      exact hr ▸ hlogs.step
    · rw [List.getElem?_eq_none (by rw [List.length_append]; exact hlt)] at hr
      simp at hr

end Logged

namespace Transition

theorem record_colour (t : Transition) : t.record.colour = Bytes.ofString t.colour.name := rfl

theorem record_op (t : Transition) : t.record.op = Bytes.ofString t.instruction.op.label := rfl

theorem record_shows {t : Transition} {m : Machine} (hdp : t.dp = m.dp) (hcc : t.cc = m.cc)
    (hstack : t.stack = m.stack) : t.record.Shows t.pos m := by
  unfold record
  rw [hdp, hcc, hstack]
  exact ⟨rfl, rfl, rfl, rfl, rfl⟩

end Transition

namespace RunState

variable {g : Grid} {s : RunState}

/-- After eight tries that failed, the pointers are where they were. -/
theorem turn_of_blocked (ho : s.machine.Oriented) (h : (s.move g).blocked = true) :
    s.turn (s.move g) = s := by
  obtain ⟨hdp, hcc⟩ := Grid.navigate_blocked ho.dp ho.cc h
  unfold turn move
  rw [hdp, hcc]

theorem executed_of_idle (set : InstructionSet) (h : (s.instruction g).op = OpCode.none) :
    (s.executed g set).1 = (s.turn (s.move g)).machine := by
  have hidle : (s.instruction g).isIdle = true := decide_eq_true h
  unfold executed InstructionSet.execute
  rw [if_pos hidle]

theorem executed_of_not_idle (set : InstructionSet) (h : (s.instruction g).op ≠ OpCode.none) :
    (s.executed g set).1 = ((set.executor (s.instruction g).op).run (s.instruction g).op
      (s.instruction g).operand (s.turn (s.move g)).machine).1 := by
  have hidle : ¬ (s.instruction g).isIdle = true := fun hidle => h (of_decide_eq_true hidle)
  unfold executed InstructionSet.execute
  rw [if_neg hidle]

theorem transition_logs (set : InstructionSet) (h : (s.move g).blocked = false) :
    (s.transition g set).record.Logs g set s.steps s.pos s.machine (s.move g) (s.instruction g).op
      (s.executed g set).1 where
  step := rfl
  way := rfl
  way_open := h
  colour := (s.transition g set).record_colour
  decoded := rfl
  label := (s.transition g set).record_op
  blockSize := rfl
  idle := executed_of_idle set
  executed := executed_of_not_idle set
  shows := Transition.record_shows rfl rfl rfl

end RunState

def Outcome.records (o : Outcome) : List Trace.Step := o.transitions.map Transition.record

namespace Walk

variable {g : Grid} {set : InstructionSet} {start : Machine} {opened : List Bytes} {w : Walk g}

/-- A walk whose history logs it, and whose trace holds the records of its history after what was
written when it was opened. -/
structure Keeps (set : InstructionSet) (start : Machine) (opened : List Bytes) (w : Walk g)
    (e : Option Ending) : Prop where
  ready : w.Ready
  running : w.state.status = .running
  length : w.history.length + idle e = w.state.steps
  log : Logged g set start (w.history.reverse.map Transition.record) w.state.pos w.state.machine
  trace : ∃ k, w.trace = some k ∧ k.Accepting ∧
    k.taken = w.history.map (fun t => t.record.encode) ++ opened

theorem Keeps.log_turn (h : w.Keeps set start opened none) :
    Logged g set start ((w.begin.advance set).1.history.reverse.map Transition.record)
      (w.begin.advance set).1.state.pos (w.begin.advance set).1.state.machine := by
  cases hb : (w.begin.state.move g).blocked with
  | true =>
    rw [advance_of_blocked h.ready.begin hb]
    have hturn := RunState.turn_of_blocked h.ready.begin.oriented hb
    rw [hturn]
    exact h.log
  | false =>
    -- The step was counted before the crossing, so it is the number of the record to come.
    have hindex : w.begin.state.steps =
        (w.history.reverse.map Transition.record).length + 1 := by
      rw [List.length_map, List.length_reverse]
      exact congrArg (· + 1) h.length.symm
    have hlogs := RunState.transition_logs set hb
    rw [hindex] at hlogs
    rw [advance_of_open h.ready.begin hb, observe_history, observe_state, List.reverse_cons,
      List.map_append]
    exact h.log.next hlogs

theorem Keeps.trace_turn (h : w.Keeps set start opened none) :
    ∃ k, (w.begin.advance set).1.trace = some k ∧ k.Accepting ∧
      k.taken = (w.begin.advance set).1.history.map (fun t => t.record.encode) ++ opened := by
  obtain ⟨k, hk, haccepting, htaken⟩ := h.trace
  cases hb : (w.begin.state.move g).blocked with
  | true =>
    rw [advance_of_blocked h.ready.begin hb]
    exact ⟨k, hk, haccepting, htaken⟩
  | false =>
    rw [advance_of_open h.ready.begin hb, observe_history, observe_trace]
    refine ⟨_, congrArg (Option.map _) hk, haccepting.write _, ?_⟩
    rw [haccepting.taken_write, htaken]
    rfl

theorem Keeps.turn (h : w.Keeps set start opened none) :
    (w.begin.advance set).1.Keeps set start opened (w.begin.advance set).2 where
  ready := h.ready.begin.advance set
  running := (advance_status set w.begin).trans h.running
  length := length_history_turn h.ready set h.length
  log := h.log_turn
  trace := h.trace_turn

/-- Being stopped adds nothing to the log; the step at the limit is counted without a record. -/
theorem Keeps.close {r : Walk g × Option Ending} (h : r.1.Keeps set start opened r.2)
    (s : Setup) : (close s r).1.Keeps set start opened (some (close s r).2) := by
  cases hr : r.2 with
  | some ending =>
    rw [close_of_ended hr]
    exact hr ▸ h
  | none =>
    rw [hr] at h
    rw [close_of_none hr]
    cases hc : s.canceled? r.1.state.steps with
    | some cause =>
      rw [halt_canceled hc]
      exact ⟨h.ready, h.running, h.length, h.log, h.trace⟩
    | none =>
      rw [halt_stepLimit hc]
      exact ⟨⟨h.ready.locator, h.ready.oriented⟩, h.running, congrArg (· + 1) h.length, h.log,
        h.trace⟩

theorem Keeps.length_records {ending : Ending} (h : w.Keeps set start opened (some ending)) :
    (w.outcome ending).records.length + ending.idle = (w.outcome ending).state.steps := by
  have hlength := h.length
  rw [outcome_steps, ← hlength, Outcome.records, List.length_map]
  exact congrArg (· + ending.idle) List.length_reverse

theorem Keeps.logged {ending : Ending} (h : w.Keeps set start opened (some ending)) :
    Logged g set start (w.outcome ending).records (w.outcome ending).state.pos
      (w.outcome ending).state.machine := by
  rw [outcome_pos, outcome_machine]
  exact h.log

end Walk

theorem Ending.idle_eq_one {e : Ending} (h : e.status = .blocked ∨ e.status = .stepLimit) :
    e.idle = 1 := by
  rw [idle_eq, if_pos h]

theorem Ending.idle_eq_zero {e : Ending} (h : e.status = .canceled) : e.idle = 0 := by
  rw [idle_eq, h]
  rfl

/-- What was taken, the latest first, read in the order of writing. -/
theorem Sink.bytes_of_taken {k sink : Sink} {history : List Transition} {header : Trace.Header}
    (h : k.taken = history.map (fun t => t.record.encode) ++ header.encode :: sink.taken) :
    k.bytes = sink.bytes ++
      Trace.encode ⟨header, history.reverse.map Transition.record⟩ := by
  have hrecords : (history.map fun t => t.record.encode).reverse.flatten =
      (history.reverse.map Transition.record).flatMap Trace.Step.encode := by
    rw [List.flatMap_def, List.map_map, ← List.map_reverse]
    rfl
  unfold bytes Trace.encode
  rw [h, List.reverse_append, List.flatten_append, hrecords, List.reverse_cons,
    List.flatten_concat, List.append_assoc]

namespace Setup

variable {s : Setup} {sink : Sink}

theorem outset_keeps (s : Setup) (h : sink.Accepting) :
    (s.outset (some (sink.write s.header.encode))).Keeps s.instructions s.machine
      (s.header.encode :: sink.taken) none :=
  ⟨s.outset_ready _, rfl, rfl, .outset, _, rfl, h.write _, h.taken_write _⟩

theorem travel_keeps (s : Setup) (h : sink.Accepting) (n : Nat) :
    (s.travel (some (sink.write s.header.encode)) n).1.Keeps s.instructions s.machine
      (s.header.encode :: sink.taken) (s.travel (some (sink.write s.header.encode)) n).2 :=
  Walk.travel_invariant (fun _ hw => hw.turn) n (s.outset_keeps h)

/-- A run whose trace takes every write ends with a walk that has kept its logbook. -/
theorem execute_keeps (htrace : s.trace = some sink) (h : sink.Accepting) :
    ∃ (w : Walk s.program.grid) (e : Ending), s.execute = w.outcome e ∧
      w.Keeps s.instructions s.machine (s.header.encode :: sink.taken) (some e) := by
  have hexecute := execute_of_takes htrace (h.takes _)
  exact ⟨_, _, hexecute.trans (s.walk_eq_close _), (s.travel_keeps h _).close s⟩

/-- A run logs no more steps than its limit lets it make. -/
theorem length_execute_transitions (s : Setup) : s.execute.transitions.length ≤ s.stepLimit - 1 := by
  unfold execute
  split
  next => exact s.length_walk_transitions none
  next sink _ =>
    dsimp only
    split
    · exact s.length_walk_transitions _
    · exact Nat.zero_le _

/-- The trace of a run is a faithful log of it, complete to its end. -/
theorem trace_logs_the_run (s : Setup) (sink : Sink) (htrace : s.trace = some sink)
    (h : sink.Accepting) :
    (∃ k, s.execute.trace = some k ∧
      k.bytes = sink.bytes ++ Trace.encode ⟨s.header, s.execute.records⟩) ∧
    Logged s.program.grid s.instructions s.machine s.execute.records s.execute.state.pos
      s.execute.state.machine ∧
    (∀ r, s.execute.records.getLast? = some r →
      r.Shows s.execute.state.pos s.execute.state.machine) ∧
    (s.stepLimit < 2 ^ 63 → ∀ (i : Nat) r, s.execute.records[i]? = some r →
      r.step.toInt = (i + 1 : Nat)) ∧
    (s.execute.state.status = .blocked ∨ s.execute.state.status = .stepLimit →
      s.execute.records.length + 1 = s.execute.state.steps) ∧
    (s.execute.state.status = .canceled → s.execute.records.length = s.execute.state.steps) := by
  have hbound := s.length_execute_transitions
  obtain ⟨w, e, hexecute, hkeeps⟩ := execute_keeps htrace h
  have hstatus := Walk.outcome_status hkeeps.running e
  have hlength := hkeeps.length_records
  have hlogged := hkeeps.logged
  rw [hexecute] at hbound ⊢
  refine ⟨?_, hlogged, fun r hr => hlogged.shows hr, ?_, ?_, ?_⟩
  · obtain ⟨k, hk, _, htaken⟩ := hkeeps.trace
    exact ⟨k, hk, Sink.bytes_of_taken htaken⟩
  · intro hlimit i r hr
    have hi : i < (w.outcome e).transitions.length := by
      have hlt := (List.getElem?_eq_some_iff.mp hr).1
      rwa [Outcome.records, List.length_map] at hlt
    rw [hlogged.step hr, Int64.toInt_ofNat_of_lt (by omega)]
  · intro hended
    rw [hstatus] at hended
    rw [← hlength, Ending.idle_eq_one hended]
  · intro hended
    rw [hstatus] at hended
    rw [← hlength, Ending.idle_eq_zero hended, Nat.add_zero]

/-- A push into a block from which the pointers that it is entered with find no way out. -/
theorem trace_logs_the_run_blocked : ∃ (s : Setup) (sink : Sink),
    s.trace = some sink ∧ sink.Accepting ∧
    s.execute.state.status = .blocked ∧ s.execute.state.steps = 2 ∧
    s.execute.records.length + 1 = s.execute.state.steps ∧
    ∃ r, s.execute.records = [r] ∧ r.op = Bytes.ofString "push" ∧ r.stack = some [1] ∧
      r.Shows s.execute.state.pos s.execute.state.machine := by
  let s : Setup := {
    program := { grid := Grid.ofFn 2 2 fun x y =>
      if x = 1 then .ofHue 0 1 else if y = 0 then .ofHue 0 0 else .black }
    run := RunId.nil
    trace := some {} }
  have haccepting : ({} : Sink).Accepting := fun _ _ => rfl
  have hblocked : s.execute.state.status = .blocked := by decide +kernel
  obtain ⟨_, _, hshows, _, hlength, _⟩ := trace_logs_the_run s {} rfl haccepting
  have hrecords : s.execute.records = [⟨1, 1, 0, Bytes.ofString "Red", Bytes.ofString "push", 1,
      Bytes.ofString "Right", Bytes.ofString "Left", some [1]⟩] := by decide +kernel
  refine ⟨s, {}, rfl, haccepting, hblocked, by decide +kernel, hlength (Or.inl hblocked), _, hrecords,
    rfl, rfl, hshows _ ?_⟩
  rw [hrecords]
  rfl

/-- An executor that is registered for the empty operation is not run: entering white leaves the
stack empty where that executor would push the size of the block. -/
theorem empty_operation_runs_no_executor : ∃ (s : Setup) (r : Trace.Step),
    InstructionSet.standard.register? OpCode.none .push = some s.instructions ∧
    s.trace = some {} ∧ s.execute.records = [r] ∧
    r.op = Bytes.ofString OpCode.none.label ∧ r.stack = some [] ∧
    ((s.instructions.executor OpCode.none).run OpCode.none
      (s.program.grid.blockAt Pos.origin).size s.machine).1.stack.values = [1] := by
  let s : Setup := {
    program := { grid := Grid.ofFn 2 1 fun x _ => if x = 0 then .ofHue 0 1 else .white }
    run := RunId.nil
    instructions := ⟨InstructionSet.defaults ++ [(OpCode.none, .push)]⟩
    stepLimit := 2
    trace := some {} }
  have hrecords : s.execute.records = [⟨1, 1, 0, Bytes.ofString "White", Bytes.ofString "none", 1,
      Bytes.ofString "Right", Bytes.ofString "Left", some []⟩] := by decide +kernel
  exact ⟨s, _, rfl, rfl, hrecords, rfl, rfl, by decide +kernel⟩

end Setup

end Codel
