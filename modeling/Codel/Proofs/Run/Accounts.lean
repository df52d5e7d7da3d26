import Codel.Proofs.Run.Growth
import Mathlib.Algebra.GroupWithZero.Nat
import Mathlib.Data.String.Basic

namespace Codel

section Counting

variable {cs : List (String × Nat)} {key k : String}

def countOf (k : String) (cs : List (String × Nat)) : Nat := (cs.lookup k).getD 0

/-- Counts by strictly increasing key. -/
def KeysIncrease (cs : List (String × Nat)) : Prop := cs.Pairwise fun a b => a.1 < b.1

theorem countOf_cons (k : String) (c : String × Nat) (cs : List (String × Nat)) :
    countOf k (c :: cs) = if k = c.1 then c.2 else countOf k cs := by
  obtain ⟨key, n⟩ := c
  unfold countOf
  rw [List.lookup_cons]
  by_cases h : k = key
  · simp [h]
  · simp [beq_eq_false_iff_ne.mpr h, h]

theorem countOf_eq_zero (h : ∀ c ∈ cs, k ≠ c.1) : countOf k cs = 0 := by
  induction cs with
  | nil => rfl
  | cons c cs ih =>
    obtain ⟨hc, hcs⟩ := List.forall_mem_cons.mp h
    rw [countOf_cons, if_neg hc, ih hcs]

theorem mem_countUnder {c : String × Nat} (h : c ∈ countUnder key cs) :
    c.1 = key ∨ ∃ d ∈ cs, d.1 = c.1 := by
  induction cs with
  | nil => exact Or.inl (congrArg Prod.fst (List.mem_singleton.mp h))
  | cons d cs ih =>
    unfold countUnder at h
    split at h
    next heq =>
      rcases List.mem_cons.mp h with rfl | h
      · exact Or.inl heq.symm
      · exact Or.inr ⟨c, List.mem_cons_of_mem _ h, rfl⟩
    next =>
      split at h
      next =>
        rcases List.mem_cons.mp h with rfl | h
        · exact Or.inl rfl
        · exact Or.inr ⟨c, h, rfl⟩
      next =>
        rcases List.mem_cons.mp h with rfl | h
        · exact Or.inr ⟨_, List.mem_cons_self, rfl⟩
        · rcases ih h with heq | ⟨e, he, heq⟩
          · exact Or.inl heq
          · exact Or.inr ⟨e, List.mem_cons_of_mem _ he, heq⟩

theorem KeysIncrease.countUnder (h : KeysIncrease cs) (key : String) :
    KeysIncrease (countUnder key cs) := by
  induction cs with
  | nil => exact List.pairwise_singleton _ _
  | cons d cs ih =>
    obtain ⟨hd, hcs⟩ := List.pairwise_cons.mp h
    unfold Codel.countUnder
    split
    next => exact List.pairwise_cons.mpr ⟨hd, hcs⟩
    next hne =>
      split
      next hlt =>
        refine List.pairwise_cons.mpr ⟨?_, h⟩
        intro c hc
        rcases List.mem_cons.mp hc with rfl | hc
        · exact hlt
        · exact lt_trans hlt (hd c hc)
      next hge =>
        refine List.pairwise_cons.mpr ⟨?_, ih hcs⟩
        intro c hc
        rcases mem_countUnder hc with heq | ⟨e, he, heq⟩
        · rw [heq]
          exact lt_of_le_of_ne (not_lt.mp hge) (Ne.symm hne)
        · exact heq ▸ hd e he

theorem countOf_countUnder (h : KeysIncrease cs) (key k : String) :
    countOf k (countUnder key cs) = countOf k cs + if k = key then 1 else 0 := by
  induction cs with
  | nil =>
    rw [Codel.countUnder, countOf_cons]
    exact (Nat.zero_add _).symm
  | cons d cs ih =>
    obtain ⟨hd, hcs⟩ := List.pairwise_cons.mp h
    unfold Codel.countUnder
    split
    next heq =>
      subst heq
      simp only [countOf_cons]
      split <;> rfl
    next hne =>
      split
      next hlt =>
        rw [countOf_cons]
        split
        next heq =>
          -- A key below all others has not been counted yet.
          subst heq
          have hzero : countOf k (d :: cs) = 0 := by
            apply countOf_eq_zero
            intro c hc
            rcases List.mem_cons.mp hc with rfl | hc
            · exact hne
            · exact ne_of_lt (lt_trans hlt (hd c hc))
          rw [hzero]
        next => rfl
      next =>
        rw [countOf_cons, countOf_cons, ih hcs]
        split
        next heq =>
          have : k ≠ key := fun hk => hne (hk.symm.trans heq)
          simp [this]
        next => rfl

theorem sum_countUnder (key : String) (cs : List (String × Nat)) :
    ((countUnder key cs).map Prod.snd).sum = (cs.map Prod.snd).sum + 1 := by
  induction cs with
  | nil => rfl
  | cons d cs ih =>
    unfold Codel.countUnder
    split
    next =>
      simp only [List.map_cons, List.sum_cons]
      omega
    next =>
      split
      next =>
        simp only [List.map_cons, List.sum_cons]
        omega
      next =>
        simp only [List.map_cons, List.sum_cons, ih]
        omega

end Counting

theorem OpCode.label_eq_iff {op op' : OpCode} (h : op ≠ none) (h' : op' ≠ none) :
    op.label = op'.label ↔ op = op' := by
  cases op
  cases op'
  simp only [label, h, h', ↓reduceIte, mk.injEq]

/-- Counts of executed operations that agree with the transitions made. -/
structure Tallies (history : List Transition) (executed : List (String × Nat)) : Prop where
  ordered : KeysIncrease executed
  total : (executed.map Prod.snd).sum = history.countP (·.instruction.op ≠ OpCode.none)
  each : ∀ op, op ≠ OpCode.none →
    countOf op.label executed = history.countP (·.instruction.op = op)

theorem tallies_nil : Tallies [] [] := ⟨List.Pairwise.nil, rfl, fun _ _ => rfl⟩

theorem Tallies.count {history : List Transition} {c : Counters} (h : Tallies history c.executed)
    (t : Transition) : Tallies (t :: history) (c.count t.instruction).executed := by
  unfold Counters.count Instruction.isIdle
  by_cases hidle : t.instruction.op = OpCode.none
  · rw [if_pos (decide_eq_true hidle)]
    refine ⟨h.ordered, ?_, ?_⟩
    · rw [h.total, List.countP_cons_of_neg (by simpa using hidle)]
    · intro op hop
      have hne : t.instruction.op ≠ op := fun heq => hop (heq.symm.trans hidle)
      rw [h.each op hop, List.countP_cons_of_neg (by simpa using hne)]
  · rw [if_neg (by simpa using hidle)]
    refine ⟨h.ordered.countUnder _, ?_, ?_⟩
    · rw [sum_countUnder, h.total, List.countP_cons_of_pos (by simpa using hidle)]
    · intro op hop
      rw [countOf_countUnder h.ordered, h.each op hop, List.countP_cons]
      simp only [OpCode.label_eq_iff hop hidle, decide_eq_true_eq, eq_comm (a := op)]

/-- The ways in which a run that has begun may end after `steps` steps, with what it reports. -/
inductive Setup.Ends (s : Setup) (steps : Nat) : Status → Option RunError → Prop
  | blocked : Ends s steps .blocked none
  | stepLimit : Ends s steps .stepLimit none
  | canceled {c : Cancellation} : s.cancellation = some c →
      c.cause = .canceled ∨ c.cause = .deadline →
      Ends s steps .canceled (some (.canceled steps c.cause))
  | foreign {c : Cancellation} {text : String} : s.cancellation = some c →
      c.cause = .other text → Ends s steps .exit (some (.foreign text))
  | untraced {sink : Sink} : s.trace = some sink →
      Ends s steps .exit (some (.untraced (.step (Int64.ofNat steps) sink.cause)))

theorem Setup.ends_canceled {s : Setup} {steps : Nat} {cause : CancelCause}
    (h : s.canceled? steps = some cause) :
    s.Ends steps (Ending.canceled cause).status ((Ending.canceled cause).error? steps) := by
  unfold canceled? at h
  split at h
  next c hc =>
    split at h
    next =>
      cases Option.some.inj h
      cases hcause : c.cause with
      | canceled =>
        have hends : s.Ends steps .canceled (some (.canceled steps c.cause)) :=
          .canceled hc (Or.inl hcause)
        rwa [hcause] at hends
      | deadline =>
        have hends : s.Ends steps .canceled (some (.canceled steps c.cause)) :=
          .canceled hc (Or.inr hcause)
        rwa [hcause] at hends
      | other text => exact .foreign hc hcause
    next => simp at h
  next => simp at h

theorem Counters.count_others (c : Counters) (i : Instruction) :
    (c.count i).steps = c.steps ∧ (c.count i).running = c.running ∧
      (c.count i).finished = c.finished := by
  unfold count
  split <;> exact ⟨rfl, rfl, rfl⟩

namespace Walk

variable {g : Grid} {s : Setup} {w : Walk g}

/-- The steps that were not begun of a run that has ended, or has not. -/
def unbegun : Option Ending → Nat
  | some .stepLimit => 1
  | _ => 0

theorem observe_counters (w : Walk g) (t : Transition) :
    (w.observe t).1.counters = w.counters := by
  rw [observe_fst]

/-- Only a trace that refuses a record ends a run after a transition. -/
theorem observe_ending_cases (w : Walk g) (t : Transition) :
    (w.observe t).2 = none ∨ ∃ k, w.trace = some k ∧
      (w.observe t).2 = some (.untraced (.step (Int64.ofNat t.step) k.cause)) := by
  unfold observe
  split
  next => exact Or.inl rfl
  next k hk =>
    dsimp only
    split
    · exact Or.inl rfl
    · exact Or.inr ⟨k, hk, rfl⟩

theorem unbegun_observe (w : Walk g) (t : Transition) : unbegun (w.observe t).2 = 0 := by
  rcases observe_ending_cases w t with hnone | ⟨k, -, hended⟩
  · rw [hnone]
    rfl
  · rw [hended]
    rfl

/-- A walk whose accounts agree. -/
structure Audited (s : Setup) (w : Walk g) (e : Option Ending) : Prop where
  ready : w.Ready
  running : w.state.status = .running
  trace : ∀ k, w.trace = some k → ∃ sink, s.trace = some sink ∧ sink.cause = k.cause
  length : w.history.length + idle e = w.state.steps
  begun : w.counters.steps + unbegun e = w.state.steps
  open_runs : w.counters.running = 1 ∧ w.counters.finished = []
  executed : Tallies w.history w.counters.executed
  ends : ∀ ending, e = some ending →
    s.Ends w.state.steps ending.status (ending.error? w.state.steps)

theorem Audited.turn_of_blocked (h : w.Audited s none) (set : InstructionSet)
    (hb : (w.begin.state.move g).blocked = true) :
    (w.begin.advance set).1.Audited s (w.begin.advance set).2 := by
  have hready := h.ready.begin.advance set
  have hlength := length_history_turn h.ready set h.length
  rw [advance_of_blocked h.ready.begin hb] at hready hlength ⊢
  refine ⟨hready, h.running, h.trace, hlength, congrArg (· + 1) h.begun, h.open_runs, h.executed, ?_⟩
  rintro _ ⟨⟩
  exact .blocked

theorem Audited.turn_of_open (h : w.Audited s none) (set : InstructionSet)
    (hb : (w.begin.state.move g).blocked = false) :
    (w.begin.advance set).1.Audited s (w.begin.advance set).2 := by
  have hready := h.ready.begin.advance set
  have hlength := length_history_turn h.ready set h.length
  rw [advance_of_open h.ready.begin hb] at hready hlength ⊢
  obtain ⟨hsteps, hrunning, hfinished⟩ :=
    w.begin.counters.count_others (w.begin.state.instruction g)
  refine ⟨hready, ?_, ?_, hlength, ?_, ?_, ?_, ?_⟩
  · rw [observe_state]
    exact h.running
  · intro k hk
    rw [observe_trace] at hk
    obtain ⟨k', hk', rfl⟩ := Option.map_eq_some_iff.mp hk
    exact h.trace k' hk'
  · rw [observe_counters, observe_state, unbegun_observe, hsteps]
    exact congrArg (· + 1) h.begun
  · rw [observe_counters, hrunning, hfinished]
    exact h.open_runs
  · have hexecuted : Tallies w.begin.history w.begin.counters.executed := h.executed
    rw [observe_counters, observe_history]
    exact hexecuted.count (w.begin.state.transition g set)
  · intro ending hending
    rcases observe_ending_cases _ (w.begin.state.transition g set) with hnone | ⟨k, hk, hended⟩
    · rw [hnone] at hending
      simp at hending
    · rw [hended] at hending
      cases Option.some.inj hending
      obtain ⟨sink, hsink, hcause⟩ := h.trace k hk
      rw [observe_state, ← hcause]
      exact .untraced hsink

theorem Audited.turn (h : w.Audited s none) (set : InstructionSet) :
    (w.begin.advance set).1.Audited s (w.begin.advance set).2 := by
  cases hb : (w.begin.state.move g).blocked with
  | true => exact h.turn_of_blocked set hb
  | false => exact h.turn_of_open set hb

/-- Being stopped changes no counter; the step at the limit is counted but not begun. -/
theorem Audited.close {r : Walk g × Option Ending} (h : r.1.Audited s r.2) :
    (close s r).1.Audited s (some (close s r).2) := by
  cases hr : r.2 with
  | some ending =>
    rw [close_of_ended hr]
    exact hr ▸ h
  | none =>
    rw [hr] at h
    rw [close_of_none hr]
    cases hc : s.canceled? r.1.state.steps with
    | some cause =>
      rw [halt_canceled hc]
      refine ⟨h.ready, h.running, h.trace, h.length, h.begun, h.open_runs, h.executed, ?_⟩
      rintro _ ⟨⟩
      exact Setup.ends_canceled hc
    | none =>
      rw [halt_stepLimit hc]
      refine ⟨⟨h.ready.locator, h.ready.oriented⟩, h.running, h.trace, congrArg (· + 1) h.length,
        congrArg (· + 1) h.begun, h.open_runs, h.executed, ?_⟩
      rintro _ ⟨⟩
      exact .stepLimit

end Walk

/-- What a run that has begun leaves behind: its steps, its transitions and its counters agree, up to
the last step where it made no transition or was not begun. -/
structure Outcome.Accounts (s : Setup) (o : Outcome) : Prop where
  ends : s.Ends o.state.steps o.state.status o.error
  running : o.counters.running = 0
  finished : o.counters.finished = [(o.state.status.name, 1)]
  steps : o.counters.steps + (if o.state.status = .stepLimit then 1 else 0) = o.state.steps
  transitions : o.transitions.length +
    (if o.state.status = .blocked ∨ o.state.status = .stepLimit then 1 else 0) = o.state.steps
  executed : (o.counters.executed.map Prod.snd).sum =
    o.transitions.countP (·.instruction.op ≠ OpCode.none)
  executed_each : ∀ op, op ≠ OpCode.none →
    countOf op.label o.counters.executed = o.transitions.countP (·.instruction.op = op)

theorem Ending.unbegun_eq (e : Ending) :
    Walk.unbegun (some e) = if e.status = .stepLimit then 1 else 0 := by
  cases e with
  | canceled cause => cases cause <;> rfl
  | _ => rfl

theorem Walk.Audited.accounts {g : Grid} {s : Setup} {w : Walk g} {e : Ending}
    (h : w.Audited s (some e)) : (w.outcome e).Accounts s := by
  have hstatus := outcome_status h.running e
  have hsteps := w.outcome_steps e
  refine ⟨?_, ?_, ?_, ?_, ?_, ?_, ?_⟩
  · rw [hstatus, hsteps]
    exact h.ends e rfl
  · change w.counters.running - 1 = 0
    rw [h.open_runs.1]
    rfl
  · change countUnder (w.outcome e).state.status.name w.counters.finished = _
    rw [h.open_runs.2]
    rfl
  · rw [hstatus, hsteps, ← e.unbegun_eq]
    exact h.begun
  · change w.history.reverse.length + _ = _
    rw [hstatus, hsteps, ← e.idle_eq, List.length_reverse]
    exact h.length
  · change _ = w.history.reverse.countP _
    rw [List.countP_reverse]
    exact h.executed.total
  · intro op hop
    change _ = w.history.reverse.countP _
    rw [List.countP_reverse]
    exact h.executed.each op hop

namespace Setup

variable {s : Setup} {trace : Option Sink}

theorem walk_accounts (htrace : ∀ k, trace = some k → ∃ sink, s.trace = some sink ∧
    sink.cause = k.cause) : (s.walk trace).Accounts s := by
  have houtset : (s.outset trace).Audited s none :=
    ⟨s.outset_ready trace, rfl, htrace, rfl, rfl, ⟨rfl, rfl⟩, tallies_nil, by simp⟩
  have htravel := Walk.travel_invariant (P := fun w e => w.Audited s e)
    (fun w hw => hw.turn s.instructions) (s.turns (s.stepLimit - 1) 0) houtset
  rw [walk_eq_close]
  exact htravel.close.accounts

theorem turns_of_not_canceled {left : Nat} (h : s.canceled? (s.turns left 0) = none) :
    s.turns left 0 = left := by
  unfold canceled? turns at h
  unfold turns
  split
  next c hc =>
    simp only [hc, ite_eq_right_iff, reduceCtorEq, imp_false, Nat.sub_zero] at h
    omega
  next => rfl

theorem travel_ne_stepLimit (s : Setup) (trace : Option Sink) (n : Nat) :
    (s.travel trace n).2 ≠ some .stepLimit := by
  refine (Walk.travel_invariant (P := fun w e => w.Ready ∧ e ≠ some .stepLimit) ?_ n
    ⟨s.outset_ready trace, by simp⟩).2
  intro w ⟨hready, _⟩
  refine ⟨hready.begin.advance s.instructions, ?_⟩
  cases hb : (w.begin.state.move s.program.grid).blocked with
  | true =>
    rw [Walk.advance_of_blocked hready.begin hb]
    simp
  | false =>
    rw [Walk.advance_of_open hready.begin hb]
    rcases Walk.observe_ending_cases _ (w.begin.state.transition _ s.instructions)
      with hnone | ⟨k, -, hended⟩
    · rw [hnone]
      simp
    · rw [hended]
      simp

/-- A run counts as many steps as its limit says just if it is stopped there, and never more. -/
theorem walk_steps (hlimit : 1 ≤ s.stepLimit) (trace : Option Sink) :
    (s.walk trace).state.steps ≤ s.stepLimit ∧
      ((s.walk trace).state.steps = s.stepLimit ↔ (s.walk trace).state.status = .stepLimit) := by
  have hturns := s.turns_le (s.stepLimit - 1) 0
  have hrunning := s.travel_status trace (s.turns (s.stepLimit - 1) 0)
  have hlt : ∀ {n : Nat} {e : Ending}, n ≤ s.turns (s.stepLimit - 1) 0 → e ≠ .stepLimit →
      n ≤ s.stepLimit ∧ (n = s.stepLimit ↔ e.status = .stepLimit) := by
    intro n e hn he
    have hstatus : e.status ≠ .stepLimit := by
      cases e with
      | canceled cause => cases cause <;> simp [Ending.status]
      | stepLimit => exact absurd rfl he
      | _ => simp [Ending.status]
    exact ⟨by omega, iff_of_false (by omega) hstatus⟩
  cases hout : (s.travel trace (s.turns (s.stepLimit - 1) 0)).2 with
  | some e =>
    rw [walk_of_ended rfl hout, Walk.outcome_steps, Walk.outcome_status hrunning]
    refine hlt (travel_steps_le hout) ?_
    rintro rfl
    exact s.travel_ne_stepLimit trace _ hout
  | none =>
    have hsteps := travel_steps hout
    rw [walk_of_none rfl hout]
    cases hc : s.canceled? (s.travel trace (s.turns (s.stepLimit - 1) 0)).1.state.steps with
    | some cause =>
      rw [Walk.halt_canceled hc, Walk.outcome_steps, Walk.outcome_status hrunning]
      exact hlt hsteps.le (by simp)
    | none =>
      rw [Walk.halt_stepLimit hc, Walk.outcome_steps, Walk.outcome_status (by exact hrunning)]
      have hall := turns_of_not_canceled (hsteps ▸ hc)
      have htick : (s.travel trace (s.turns (s.stepLimit - 1) 0)).1.tick.state.steps =
          s.stepLimit - 1 + 1 := congrArg (· + 1) (hsteps.trans hall)
      rw [htick]
      exact ⟨by omega, iff_of_true (by omega) rfl⟩

theorem execute_of_unopened (h : s.Unopened) : s.execute.state = { machine := s.machine } ∧
    s.execute.transitions = [] ∧ s.execute.counters = {} := by
  obtain ⟨sink, htrace, hrefused⟩ := h
  rw [execute_of_refused htrace hrefused]
  exact ⟨rfl, rfl, rfl⟩

theorem opened_cause {k : Sink} (h : s.opened = some k) :
    ∃ sink, s.trace = some sink ∧ sink.cause = k.cause := by
  obtain ⟨sink, htrace, rfl⟩ := Option.map_eq_some_iff.mp h
  exact ⟨sink, htrace, rfl⟩

/-- Whatever ends a run, its counters agree. -/
theorem counters_agree (s : Setup) (hlimit : 1 ≤ s.stepLimit) :
    s.execute.state.steps ≤ s.stepLimit ∧
    (s.execute.state.steps = s.stepLimit ↔ s.execute.state.status = .stepLimit) ∧
    (s.Unopened → s.execute.state.status = .new ∧ s.execute.state.steps = 0 ∧
      s.execute.transitions = [] ∧ s.execute.counters = {}) ∧
    (¬ s.Unopened → s.execute.Accounts s) := by
  by_cases h : s.Unopened
  · obtain ⟨hstate, htransitions, hcounters⟩ := execute_of_unopened h
    rw [hstate, htransitions, hcounters]
    refine ⟨Nat.zero_le _, iff_of_false ?_ (by simp), fun _ => ⟨rfl, rfl, rfl, rfl⟩,
      fun hopened => absurd h hopened⟩
    exact Nat.ne_of_lt hlimit
  · rw [execute_of_opened h]
    obtain ⟨hle, hiff⟩ := walk_steps hlimit s.opened
    exact ⟨hle, hiff, fun hunopened => absurd hunopened h,
      fun _ => walk_accounts fun _ hk => opened_cause hk⟩

/-- A run that ends because its trace refuses the record of the second transition. -/
theorem counters_agree_untraced : ∃ s : Setup, 1 ≤ s.stepLimit ∧ ¬ s.Unopened ∧
    s.execute.state.status = .exit ∧ s.execute.state.steps < s.stepLimit ∧
    s.execute.transitions.length = 2 ∧ s.execute.Accounts s := by
  let s : Setup := {
    program := { grid := Grid.ofFn 2 1 fun x _ => ⟨x⟩ }
    run := RunId.nil
    stepLimit := 5
    trace := some { admits := fun t _ => t.tried < 2 } }
  have hlimit : 1 ≤ s.stepLimit := by decide
  have hopened : ¬ s.Unopened := by
    rintro ⟨_, ⟨⟩, hrefused⟩
    exact absurd hrefused (by decide)
  obtain ⟨hle, hiff, _, haccounts⟩ := counters_agree s hlimit
  have hstatus : s.execute.state.status = .exit := by decide +kernel
  have hne : s.execute.state.steps ≠ s.stepLimit := by
    rw [Ne, hiff, hstatus]
    simp
  exact ⟨s, hlimit, hopened, hstatus, Nat.lt_of_le_of_ne hle hne, by decide +kernel,
    haccounts hopened⟩

end Setup

end Codel
