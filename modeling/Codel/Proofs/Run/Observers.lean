import Codel.Proofs.Run.Emissions

namespace Codel

/-- Who watches a run, and what takes its writes. -/
structure Observers where
  output : Sink := {}
  prompt : Option Sink := none
  trace : Option Sink := none
  /-- Whether debug lines are shown. -/
  debug : Bool := false
  /-- The level of the logger. -/
  level : Log.Level := .debug

/-- The trace, if there is one, takes every write. -/
def Observers.Accepting (v : Observers) : Prop := ∀ k, v.trace = some k → k.Accepting

/-- The run that is watched. -/
def Setup.under (s : Setup) (v : Observers) : Setup :=
  { s with output := v.output, prompt := v.prompt, trace := v.trace }

/-- The log of the run that is watched. Debug lines and level pick from what the outcome shows. -/
def Setup.logUnder (s : Setup) (v : Observers) : List Log.Entry :=
  logEntries v.level ((s.under v).notes v.debug (s.under v).execute)

/-- Runs that come to the same result from the same input. -/
structure Outcome.SameResult (o o' : Outcome) : Prop where
  error : o'.error = o.error
  status : o'.state.status = o.state.status
  steps : o'.state.steps = o.state.steps
  pos : o'.state.pos = o.state.pos
  dp : o'.state.machine.dp = o.state.machine.dp
  cc : o'.state.machine.cc = o.state.machine.cc
  stack : o'.state.machine.stack = o.state.machine.stack
  input : o'.state.machine.input = o.state.machine.input

/-- The outcome without anything that was written. -/
def Outcome.bare (o : Outcome) : Outcome := { o.mute with trace := none }

namespace Setup

variable {v : Observers}

theorem execute_under (h : v.Accepting) (s : Setup) : ∃ trace, (s.under v).execute =
    { ({ s.under v with trace := none } : Setup).execute with trace := trace } := by
  cases hk : v.trace with
  | none =>
    have hsame : ({ s.under v with trace := none } : Setup) = s.under v := by
      unfold under
      rw [hk]
    exact ⟨(s.under v).execute.trace, by rw [hsame]⟩
  | some k => exact ⟨_, execute_recorded (s := s.under v) hk ((h k hk).takesAll _)⟩

/-- A run that is watched comes to what it comes to alone, but for its writes and its trace. -/
theorem bare_execute_under (h : v.Accepting) (s : Setup) :
    (s.under v).execute.bare = ({ s with trace := none } : Setup).execute.bare := by
  obtain ⟨trace, heq⟩ := execute_under h s
  have hmute := walk_mute { s with trace := none } v.output v.prompt none
  rw [heq]
  exact congrArg (fun o : Outcome => { o with trace := none }) hmute

theorem execute_under_emitted (h : v.Accepting) (s : Setup) :
    Emitted s v.output (s.under v).execute.transitions.reverse
      (s.under v).execute.state.machine.output := by
  obtain ⟨trace, heq⟩ := execute_under h s
  have hemitted := (s.under v).travel_emitted none
    ((s.under v).turns ((s.under v).stepLimit - 1) 0)
  rw [heq, execute_untraced]
  dsimp only
  rw [Walk.outcome_machine, Walk.close_machine]
  change Emitted s v.output (Walk.close (s.under v) _).1.history.reverse.reverse _
  rw [List.reverse_reverse, Walk.close_history]
  exact ⟨hemitted.writes, hemitted.warnings⟩

theorem execute_under_ending (h : v.Accepting) (s : Setup) : ∃ e,
    (s.under v).execute.ending = some e ∧ (s.under v).execute.state.status = e.status := by
  obtain ⟨trace, heq⟩ := execute_under h s
  rw [heq, execute_untraced]
  refine ⟨_, rfl, Walk.outcome_status ?_ _⟩
  rw [Walk.close_status]
  exact (s.under v).travel_status none _

end Setup

namespace Outcome

variable {o o' : Outcome}

theorem sameResult_of_bare (h : o'.bare = o.bare) : o.SameResult o' := by
  have herror := congrArg Outcome.error h
  have hstatus := congrArg (fun o : Outcome => o.state.status) h
  have hsteps := congrArg (fun o : Outcome => o.state.steps) h
  have hpos := congrArg (fun o : Outcome => o.state.pos) h
  have hmachine := congrArg (fun o : Outcome => o.state.machine) h
  obtain ⟨hstack, hdp, hcc, hinput⟩ := Machine.mute_eq_iff.mp hmachine
  exact ⟨herror, hstatus, hsteps, hpos, hdp, hcc, hstack, hinput⟩

theorem emissions_of_bare (h : o'.bare = o.bare) (set : InstructionSet) :
    o'.emissions set = o.emissions set := by
  have htransitions := congrArg Outcome.transitions h
  change o'.transitions.map Transition.mute = o.transitions.map Transition.mute at htransitions
  unfold Outcome.emissions
  rw [← emissions_mute set o'.transitions.reverse, ← emissions_mute set o.transitions.reverse,
    List.map_reverse, List.map_reverse, htransitions]

end Outcome

theorem Ending.status_eq_stepLimit {e : Ending} : e.status = .stepLimit ↔ e = .stepLimit := by
  cases e with
  | canceled cause => cases cause <;> simp [status]
  | _ => simp [status]

namespace Setup

/-- Who watches a run has no part in what it comes to, and neither has what becomes of its writes.
An output with room for `n` bytes takes, of all that any such run would write, what keeps the total
within `n`, and the log of a level that keeps warnings has one for each of the others, besides the
one at the step limit. -/
theorem observers_change_nothing (s : Setup) (v v' : Observers) (h : v.Accepting)
    (h' : v'.Accepting) :
    (s.under v).execute.SameResult (s.under v').execute ∧
    ∀ n, v.output = Sink.limited n →
      (s.under v).execute.state.machine.output.bytes =
        ((Emission.judged n 0 ((s.under v').execute.emissions s.instructions)).filter
          (·.2)).flatMap (·.1.bytes) ∧
      (v.level.keeps .warning = true →
        (s.logUnder v).filter (·.level = .warning) =
          ((Emission.judged n 0 ((s.under v').execute.emissions s.instructions)).filter
            (!·.2)).map (·.1.warning s "closed") ++
          if (s.under v).execute.state.status = .stepLimit then [s.limitWarning (s.under v).execute]
          else []) := by
  have hbare := (bare_execute_under h' s).trans (bare_execute_under h s).symm
  refine ⟨Outcome.sameResult_of_bare hbare, fun n hn => ?_⟩
  rw [Outcome.emissions_of_bare hbare]
  have hemitted := execute_under_emitted h s
  rw [hn] at hemitted
  have hjudged := Emission.judgedBy_limited (k := Sink.limited n) rfl
    ((s.under v).execute.emissions s.instructions)
  refine ⟨?_, fun hlevel => ?_⟩
  · rw [hemitted.writes, Emission.bytes_writes]
    exact congrArg (fun js => (js.filter (·.2)).flatMap (·.1.bytes)) hjudged
  · obtain ⟨e, hending, hstatus⟩ := execute_under_ending h s
    have hwarnings := hemitted.warnings
    rw [List.reverse_reverse] at hwarnings
    rw [logUnder, warnings_notes hlevel hending, hstatus]
    simp only [Ending.status_eq_stepLimit]
    refine congrArg (· ++ _) (hwarnings.trans ?_)
    exact congrArg (fun js => (js.filter (!·.2)).map (·.1.warning s "closed")) hjudged

/-- A push of three and a write of it as a number, for which there is no room. -/
theorem observers_change_nothing_no_room : ∃ (s : Setup) (v v' : Observers),
    v.Accepting ∧ v'.Accepting ∧ v.output = Sink.limited 0 ∧ v.level.keeps .warning = true ∧
    (s.under v).execute.SameResult (s.under v').execute ∧
    (s.under v').execute.state.machine.output.bytes = Bytes.ofString "3" ∧
    (s.under v).execute.state.machine.output.bytes = [] ∧
    (s.logUnder v).filter (·.level = .warning) =
      [Emission.warning s "closed" ⟨2, OpCode.outNumber, .number, 3⟩,
        s.limitWarning (s.under v).execute] := by
  let s : Setup := {
    program := { grid := Grid.ofFn 5 1 fun x _ =>
      if x < 3 then .ofHue 0 0 else if x = 3 then .ofHue 0 1 else .ofHue 5 2 }
    run := RunId.nil
    stepLimit := 3 }
  let v : Observers := { output := Sink.limited 0, debug := true, level := .warning }
  let v' : Observers := { prompt := some {}, trace := some {} }
  have h : v.Accepting := by rintro k ⟨⟩
  have h' : v'.Accepting := by
    rintro k ⟨⟩
    exact fun _ _ => rfl
  obtain ⟨hsame, hlimit⟩ := observers_change_nothing s v v' h h'
  obtain ⟨houtput, hwarnings⟩ := hlimit 0 rfl
  have hforms : (s.under v').execute.emissions s.instructions =
      [⟨2, OpCode.outNumber, .number, 3⟩] := by decide +kernel
  have hstatus : (s.under v).execute.state.status = .stepLimit := by decide +kernel
  rw [hforms] at houtput hwarnings
  refine ⟨s, v, v', h, h', rfl, rfl, hsame, by decide +kernel, houtput, ?_⟩
  rw [hwarnings rfl, if_pos hstatus]
  rfl

end Setup

end Codel
