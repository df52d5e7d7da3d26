import Codel.Proofs.Run.Growth

namespace Codel

/-- The bytes that a run has written to its trace. -/
def Outcome.traceBytes (o : Outcome) : Bytes := (Walk.recorded o.trace).reverse.flatten

/-- What `o` has shown is the beginning of what `o'` has. -/
structure Outcome.BeginningOf (o o' : Outcome) : Prop where
  transitions : o.transitions <+: o'.transitions
  output : o.state.machine.output.bytes <+: o'.state.machine.output.bytes
  trace : o.traceBytes <+: o'.traceBytes

/-- Where a run stands and what it has shown. -/
structure Outcome.StandsAs (o o' : Outcome) : Prop where
  pos : o.state.pos = o'.state.pos
  machine : o.state.machine = o'.state.machine
  transitions : o.transitions = o'.transitions
  trace : o.trace = o'.trace

/-- Counting one more step and ending another way leave a run where it stands. -/
theorem Walk.outcome_standsAs {g : Grid} (w : Walk g) (e e' : Ending) :
    (w.outcome e).StandsAs (w.tick.outcome e') where
  pos := (w.state.change_pos _).trans (w.tick.state.change_pos _).symm
  machine := (w.state.change_machine _).trans (w.tick.state.change_machine _).symm
  transitions := rfl
  trace := rfl

theorem Walk.Extends.outcome {g : Grid} {w w' : Walk g} (h : w.Extends w') (e e' : Ending) :
    (w.outcome e).BeginningOf (w'.outcome e') where
  transitions := List.reverse_prefix.mpr h.history
  output := by
    change (w.state.change e.status).machine.output.bytes <+:
      (w'.state.change e'.status).machine.output.bytes
    rw [RunState.change_machine, RunState.change_machine]
    exact Sink.bytes_prefix h.output
  trace := by
    obtain ⟨later, heq⟩ := h.trace
    refine ⟨later.reverse.flatten, ?_⟩
    change (recorded w.trace).reverse.flatten ++ _ = (recorded w'.trace).reverse.flatten
    rw [← heq, List.reverse_append, List.flatten_append]

namespace Setup

variable {s : Setup} {trace : Option Sink} {limit limit' n : Nat} {e : Ending} {c : Cancellation}

/-- The run with a step limit and without cancellation. -/
def within (s : Setup) (limit : Nat) : Setup :=
  { s with stepLimit := limit, cancellation := none }

/-- The run with a step limit and a cancellation. -/
def stopped (s : Setup) (limit : Nat) (c : Cancellation) : Setup :=
  { s with stepLimit := limit, cancellation := some c }

theorem walk_within_of_ended (h : (s.travel trace (limit - 1)).2 = some e) :
    (s.within limit).walk trace = (s.travel trace (limit - 1)).1.outcome e :=
  walk_of_ended (s := s.within limit) rfl h

theorem walk_within_of_none (h : (s.travel trace (limit - 1)).2 = none) :
    (s.within limit).walk trace = (s.travel trace (limit - 1)).1.tick.outcome .stepLimit :=
  walk_of_none (s := s.within limit) rfl h

/-- A cancellation that the trajectory comes to stops it there. -/
theorem walk_stopped_of_none (hle : c.after ≤ limit - 1) (h : (s.travel trace c.after).2 = none) :
    (s.stopped limit c).walk trace = (s.travel trace c.after).1.outcome (.canceled c.cause) := by
  have hcanceled : (s.stopped limit c).canceled? (s.travel trace c.after).1.state.steps =
      some c.cause := if_pos (travel_steps h).ge
  rw [walk_of_none (s := s.stopped limit c) (Nat.min_eq_right hle) h]
  have hhalt := Walk.halt_canceled hcanceled
  exact congrArg (fun r => r.1.outcome r.2) hhalt

/-- A cancellation that it does not come to has no part in the run. -/
theorem walk_stopped_of_ended (h : (s.travel trace (min (limit - 1) c.after)).2 = some e) :
    (s.stopped limit c).walk trace = (s.within limit).walk trace := by
  have hsame := travel_of_ended (Nat.min_le_left (limit - 1) c.after) h
  have hlimit : (s.travel trace (limit - 1)).2 = some e := by rw [hsame, h]
  rw [walk_within_of_ended hlimit, hsame]
  exact walk_of_ended (s := s.stopped limit c) rfl h

theorem walk_stopped_of_lt (hlt : limit - 1 < c.after)
    (h : (s.travel trace (limit - 1)).2 = none) :
    (s.stopped limit c).walk trace = (s.within limit).walk trace := by
  have hcanceled : (s.stopped limit c).canceled? (s.travel trace (limit - 1)).1.state.steps =
      none := by
    rw [travel_steps h]
    exact if_neg (Nat.not_le.mpr hlt)
  rw [walk_within_of_none h,
    walk_of_none (s := s.stopped limit c) (Nat.min_eq_left (Nat.le_of_lt hlt)) h]
  exact congrArg (fun r => r.1.outcome r.2) (Walk.halt_stepLimit hcanceled)

/-- A run without cancellation ends blocked, or else at its step limit. -/
theorem execute_within_cases (h : s.Accepting) (limit : Nat) :
    ((s.travel s.opened (limit - 1)).2 = some .blocked ∧
      (s.within limit).execute = (s.travel s.opened (limit - 1)).1.outcome .blocked ∧
      (s.within limit).execute.state.status = .blocked) ∨
    ((s.travel s.opened (limit - 1)).2 = none ∧
      (s.within limit).execute = (s.travel s.opened (limit - 1)).1.tick.outcome .stepLimit ∧
      (s.within limit).execute.state.status = .stepLimit) := by
  have hexecute : (s.within limit).execute = (s.within limit).walk s.opened :=
    execute_eq_walk (s := s.within limit) h
  have hstatus := s.travel_status s.opened (limit - 1)
  rw [hexecute]
  rcases Walk.travel_ending (s.outset_ready s.opened) (outset_accepting h) s.instructions
    (limit - 1) with hnone | hblocked
  · refine Or.inr ⟨hnone, walk_within_of_none hnone, ?_⟩
    rw [walk_within_of_none hnone, Walk.outcome_status (by exact hstatus)]
    rfl
  · refine Or.inl ⟨hblocked, walk_within_of_ended hblocked, ?_⟩
    rw [walk_within_of_ended hblocked, Walk.outcome_status hstatus]
    rfl

theorem execute_within_shows (h : s.Accepting) (limit : Nat) :
    ∃ v e, (s.within limit).execute = Walk.outcome v e ∧
      v.Extends (s.travel s.opened (limit - 1)).1 ∧
      (s.travel s.opened (limit - 1)).1.Extends v := by
  rcases execute_within_cases h limit with ⟨_, heq, _⟩ | ⟨_, heq, _⟩
  · exact ⟨_, _, heq, .refl _, .refl _⟩
  · exact ⟨_, _, heq, Walk.tick_extends _, Walk.extends_tick _⟩

theorem execute_within_beginningOf (h : s.Accepting) (hle : limit ≤ limit') :
    (s.within limit).execute.BeginningOf (s.within limit').execute := by
  obtain ⟨v, e, heq, hv, _⟩ := execute_within_shows h limit
  obtain ⟨v', e', heq', _, hv'⟩ := execute_within_shows h limit'
  have htravel := travel_extends s s.opened (Nat.sub_le_sub_right hle 1)
  rw [heq, heq']
  exact (hv.trans (htravel.trans hv')).outcome e e'

theorem execute_within_of_blocked (h : s.Accepting) (hle : limit ≤ limit')
    (hb : (s.within limit).execute.state.status = .blocked) :
    (s.within limit').execute = (s.within limit).execute := by
  rcases execute_within_cases h limit with ⟨hended, heq, _⟩ | ⟨_, _, hstatus⟩
  · have hsame := travel_of_ended (Nat.sub_le_sub_right hle 1) hended
    rcases execute_within_cases h limit' with ⟨_, heq', _⟩ | ⟨hnone, _⟩
    · rw [heq, heq', hsame]
    · rw [hsame, hended] at hnone
      simp at hnone
  · simp [hstatus] at hb

theorem execute_within_of_not_blocked (h : s.Accepting) (hlimit : 1 ≤ limit)
    (hb : (s.within limit).execute.state.status ≠ .blocked) :
    (s.within limit).execute.state.status = .stepLimit ∧
      (s.within limit).execute.transitions.length + 1 = limit := by
  rcases execute_within_cases h limit with ⟨_, _, hstatus⟩ | ⟨hnone, heq, hstatus⟩
  · exact absurd hstatus hb
  · refine ⟨hstatus, ?_⟩
    have hlength := travel_length hnone
    rw [heq]
    change (s.travel s.opened (limit - 1)).1.history.reverse.length + 1 = limit
    rw [List.length_reverse, hlength]
    omega

/-- A cancellation that shows later than the run asks changes nothing. -/
theorem execute_stopped_of_le (h : s.Accepting)
    (hle : (s.within limit).execute.state.steps ≤ c.after) :
    (s.stopped limit c).execute = (s.within limit).execute := by
  have hstopped : (s.stopped limit c).execute = (s.stopped limit c).walk s.opened :=
    execute_eq_walk (s := s.stopped limit c) h
  have hwithin : (s.within limit).execute = (s.within limit).walk s.opened :=
    execute_eq_walk (s := s.within limit) h
  rw [hstopped, hwithin]
  rcases execute_within_cases h limit with ⟨hended, heq, _⟩ | ⟨hnone, heq, _⟩
  · rw [heq, Walk.outcome_steps] at hle
    cases hcut : (s.travel s.opened (min (limit - 1) c.after)).2 with
    | some e => exact walk_stopped_of_ended hcut
    | none =>
      -- The trajectory would go on after as many steps as it has in the end.
      have hlt := lt_steps_travel (Nat.min_le_left (limit - 1) c.after) hcut hended
      have hsteps := travel_steps_le hended
      omega
  · rw [heq, Walk.outcome_steps] at hle
    have hsteps : (s.travel s.opened (limit - 1)).1.tick.state.steps = limit - 1 + 1 :=
      congrArg (· + 1) (travel_steps hnone)
    exact walk_stopped_of_lt (by omega) hnone

/-- Otherwise the run is where it is at the step limit after the question that shows it. -/
theorem execute_stopped_of_lt (h : s.Accepting)
    (hlt : c.after < (s.within limit).execute.state.steps) :
    (s.stopped limit c).execute =
        (s.travel s.opened c.after).1.outcome (.canceled c.cause) ∧
      (s.within (c.after + 1)).execute = (s.travel s.opened c.after).1.tick.outcome .stepLimit ∧
      (s.travel s.opened c.after).1.state.steps = c.after := by
  have hstopped : (s.stopped limit c).execute = (s.stopped limit c).walk s.opened :=
    execute_eq_walk (s := s.stopped limit c) h
  have hopen : c.after ≤ limit - 1 ∧ (s.travel s.opened c.after).2 = none := by
    rcases execute_within_cases h limit with ⟨hended, heq, _⟩ | ⟨hnone, heq, _⟩
    · rw [heq, Walk.outcome_steps] at hlt
      have hsteps := travel_steps_le hended
      refine ⟨by omega, ?_⟩
      cases hcut : (s.travel s.opened c.after).2 with
      | none => rfl
      | some e =>
        rw [travel_of_ended (by omega) hcut] at hlt
        have := travel_steps_le hcut
        omega
    · rw [heq, Walk.outcome_steps] at hlt
      have hsteps : (s.travel s.opened (limit - 1)).1.tick.state.steps = limit - 1 + 1 :=
        congrArg (· + 1) (travel_steps hnone)
      have hle : c.after ≤ limit - 1 := by omega
      exact ⟨hle, travel_none_of_le hle hnone⟩
  refine ⟨?_, ?_, travel_steps hopen.2⟩
  · rw [hstopped, walk_stopped_of_none hopen.1 hopen.2]
  · have hwithin : (s.within (c.after + 1)).execute = (s.within (c.after + 1)).walk s.opened :=
      execute_eq_walk (s := s.within (c.after + 1)) h
    rw [hwithin]
    exact walk_within_of_none hopen.2

/-- Where a run is stopped decides how much of its trajectory it shows, and nothing else. -/
theorem limits_cut_one_trajectory (s : Setup) (h : s.Accepting) :
    (∀ limit limit', 1 ≤ limit → limit ≤ limit' →
      (s.within limit).execute.BeginningOf (s.within limit').execute ∧
      ((s.within limit).execute.state.status = .blocked →
        (s.within limit').execute = (s.within limit).execute) ∧
      ((s.within limit).execute.state.status ≠ .blocked →
        (s.within limit).execute.state.status = .stepLimit ∧
        (s.within limit).execute.transitions.length + 1 = limit)) ∧
    (∀ limit n cause, cause = .canceled ∨ cause = .deadline →
      ((s.within limit).execute.state.steps ≤ n →
        (s.stopped limit ⟨n, cause⟩).execute = (s.within limit).execute) ∧
      (n < (s.within limit).execute.state.steps →
        (s.stopped limit ⟨n, cause⟩).execute.state.status = .canceled ∧
        (s.stopped limit ⟨n, cause⟩).execute.error = some (.canceled n cause) ∧
        (s.stopped limit ⟨n, cause⟩).execute.state.steps = n ∧
        (s.stopped limit ⟨n, cause⟩).execute.StandsAs (s.within (n + 1)).execute)) := by
  constructor
  · intro limit limit' hlimit hle
    exact ⟨execute_within_beginningOf h hle, execute_within_of_blocked h hle,
      execute_within_of_not_blocked h hlimit⟩
  · intro limit n cause hcause
    refine ⟨fun hle => execute_stopped_of_le (c := ⟨n, cause⟩) h hle, fun hlt => ?_⟩
    obtain ⟨hstopped, hwithin, hsteps⟩ := execute_stopped_of_lt (c := ⟨n, cause⟩) h hlt
    dsimp only at hstopped hwithin hsteps
    have hstatus := Walk.outcome_status (s.travel_status s.opened n) (.canceled cause)
    have herror : ((s.travel s.opened n).1.outcome (.canceled cause)).error =
        (Ending.canceled cause).error? n := congrArg (Ending.error? · (.canceled cause)) hsteps
    rw [hstopped, hwithin, hstatus, herror, Walk.outcome_steps]
    refine ⟨?_, ?_, hsteps, Walk.outcome_standsAs _ _ _⟩
    · rcases hcause with rfl | rfl <;> rfl
    · rcases hcause with rfl | rfl <;> rfl

/-- Two codels between which a run goes to and fro, cut after two of four transitions. -/
theorem limits_cut_one_trajectory_to_and_fro : ∃ s : Setup, s.Accepting ∧ s.trace.isSome ∧
    (s.within 3).execute.BeginningOf (s.within 5).execute ∧
    (s.within 3).execute.transitions.length = 2 ∧
    (s.stopped 5 ⟨2, .deadline⟩).execute.error = some (.canceled 2 .deadline) ∧
    (s.stopped 5 ⟨2, .deadline⟩).execute.StandsAs (s.within 3).execute := by
  let s : Setup :=
    { program := { grid := Grid.ofFn 2 1 fun x _ => ⟨x⟩ }, run := RunId.nil, trace := some {} }
  have haccepting : s.Accepting := by
    rintro k ⟨⟩
    exact fun _ _ => rfl
  obtain ⟨hlimits, hstops⟩ := limits_cut_one_trajectory s haccepting
  obtain ⟨hbeginning, _, hlimit⟩ := hlimits 3 5 (by decide) (by decide)
  obtain ⟨_, herror, _, hstands⟩ := (hstops 5 2 .deadline (Or.inr rfl)).2 (by decide +kernel)
  have hlength := (hlimit (by decide +kernel)).2
  exact ⟨s, haccepting, rfl, hbeginning, Nat.succ_injective hlength, herror, hstands⟩

end Setup

end Codel
