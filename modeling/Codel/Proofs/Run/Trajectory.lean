import Codel.Proofs.Run.Reach

namespace Codel

namespace Walk

variable {g : Grid} {set : InstructionSet} {w : Walk g} {m n : Nat} {e : Ending}

/-- Up to `n` turns, and how the run ended if one of them was its last. -/
def travel (set : InstructionSet) : (n : Nat) → Walk g → Walk g × Option Ending
  | 0, w => (w, none)
  | n + 1, w =>
    match w.begin.advance set with
    | (w, some ending) => (w, some ending)
    | (w, none) => travel set n w

theorem travel_succ_of_ended (h : (w.begin.advance set).2 = some e) (n : Nat) :
    travel set (n + 1) w = ((w.begin.advance set).1, some e) := by
  rw [travel]
  split
  next heq => simp_all
  next heq => simp [heq] at h

theorem travel_succ_of_none (h : (w.begin.advance set).2 = none) (n : Nat) :
    travel set (n + 1) w = travel set n (w.begin.advance set).1 := by
  rw [travel]
  split
  next heq => simp [heq] at h
  next heq => rw [heq]

/-- A run that has ended stays as it is, and any other one goes on from where it stands. -/
theorem travel_add (set : InstructionSet) (m n : Nat) (w : Walk g) :
    travel set (m + n) w =
      if (travel set m w).2.isSome then travel set m w else travel set n (travel set m w).1 := by
  induction m generalizing w with
  | zero =>
    rw [Nat.zero_add, travel]
    rfl
  | succ m ih =>
    rw [Nat.succ_add]
    cases hout : (w.begin.advance set).2 with
    | some ending =>
      rw [travel_succ_of_ended hout, travel_succ_of_ended hout]
      rfl
    | none =>
      rw [travel_succ_of_none hout, travel_succ_of_none hout]
      exact ih _

theorem travel_add_of_ended (h : (travel set m w).2 = some e) (n : Nat) :
    travel set (m + n) w = travel set m w := by
  rw [travel_add, h]
  rfl

theorem travel_add_of_none (h : (travel set m w).2 = none) (n : Nat) :
    travel set (m + n) w = travel set n (travel set m w).1 := by
  rw [travel_add, h]
  rfl

theorem travel_one (w : Walk g) : travel set 1 w = w.begin.advance set := by
  rw [travel]
  split
  next heq => exact heq.symm
  next heq => exact heq.symm

/-- What every turn of a run that has not ended keeps, the run keeps. -/
theorem travel_invariant {P : Walk g → Option Ending → Prop}
    (hturn : ∀ w, P w none → P (w.begin.advance set).1 (w.begin.advance set).2)
    (n : Nat) (h : P w none) : P (travel set n w).1 (travel set n w).2 := by
  induction n generalizing w with
  | zero => exact h
  | succ n ih =>
    have hnext := hturn w h
    cases hout : (w.begin.advance set).2 with
    | some ending =>
      rw [travel_succ_of_ended hout]
      exact hout ▸ hnext
    | none =>
      rw [travel_succ_of_none hout]
      exact ih (hout ▸ hnext)

theorem Ready.travel (h : w.Ready) (n : Nat) : (travel set n w).1.Ready :=
  travel_invariant (P := fun w _ => w.Ready) (fun _ hw => hw.begin.advance set) n h

/-- Walks that every turn keeps side by side, and ends the same way, a run keeps so. -/
theorem travel_side_by_side {g' : Grid} {w' : Walk g'} {R : Walk g → Walk g' → Prop}
    (hturn : ∀ v v', R v v' → R (v.begin.advance set).1 (v'.begin.advance set).1 ∧
      (v'.begin.advance set).2 = (v.begin.advance set).2) (n : Nat) (h : R w w') :
    R (travel set n w).1 (travel set n w').1 ∧ (travel set n w').2 = (travel set n w).2 := by
  induction n generalizing w w' with
  | zero => exact ⟨h, rfl⟩
  | succ n ih =>
    obtain ⟨hnext, hending⟩ := hturn _ _ h
    cases hout : (w.begin.advance set).2 with
    | some e =>
      rw [hout] at hending
      rw [travel_succ_of_ended hout, travel_succ_of_ended hending]
      exact ⟨hnext, rfl⟩
    | none =>
      rw [hout] at hending
      rw [travel_succ_of_none hout, travel_succ_of_none hending]
      exact ih hnext

section Steps

/-- A turn changes where a run stands and its machine, and neither steps nor status. -/
theorem exists_advance_state_eq (set : InstructionSet) (w : Walk g) :
    ∃ pos machine, (w.advance set).1.state = { w.state with pos := pos, machine := machine } := by
  unfold advance
  dsimp only
  split
  · exact ⟨_, _, rfl⟩
  · rw [observe_state]
    exact ⟨_, _, rfl⟩

theorem advance_steps (set : InstructionSet) (w : Walk g) :
    (w.advance set).1.state.steps = w.state.steps := by
  obtain ⟨pos, machine, h⟩ := exists_advance_state_eq set w
  rw [h]

theorem begin_advance_steps (set : InstructionSet) (w : Walk g) :
    (w.begin.advance set).1.state.steps = w.state.steps + 1 :=
  advance_steps set w.begin

theorem travel_steps_of_none (h : (travel set n w).2 = none) :
    (travel set n w).1.state.steps = w.state.steps + n := by
  induction n generalizing w with
  | zero => rfl
  | succ n ih =>
    cases hout : (w.begin.advance set).2 with
    | some ending => simp [travel_succ_of_ended hout] at h
    | none =>
      rw [travel_succ_of_none hout] at h ⊢
      rw [ih h, begin_advance_steps]
      omega

/-- The last turn counts as a step, whatever became of it. -/
theorem travel_steps_of_ended (h : (travel set n w).2 = some e) :
    w.state.steps < (travel set n w).1.state.steps ∧
      (travel set n w).1.state.steps ≤ w.state.steps + n := by
  induction n generalizing w with
  | zero => simp [travel] at h
  | succ n ih =>
    have hsteps := begin_advance_steps set w
    cases hout : (w.begin.advance set).2 with
    | some ending =>
      rw [travel_succ_of_ended hout]
      dsimp only
      omega
    | none =>
      rw [travel_succ_of_none hout] at h ⊢
      have := ih h
      omega

end Steps

section Outcome

theorem advance_status (set : InstructionSet) (w : Walk g) :
    (w.advance set).1.state.status = w.state.status := by
  obtain ⟨pos, machine, h⟩ := exists_advance_state_eq set w
  rw [h]

theorem travel_status (set : InstructionSet) (n : Nat) (h : w.state.status = .running) :
    (travel set n w).1.state.status = .running :=
  travel_invariant (P := fun w _ => w.state.status = .running)
    (fun w hw => (advance_status set w.begin).trans hw) n h

theorem outcome_status (h : w.state.status = .running) (e : Ending) :
    (w.outcome e).state.status = e.status := by
  change (w.state.change e.status).status = e.status
  unfold RunState.change
  rw [h]
  rfl

theorem outcome_steps (w : Walk g) (e : Ending) : (w.outcome e).state.steps = w.state.steps :=
  w.state.change_steps e.status

theorem outcome_pos (w : Walk g) (e : Ending) : (w.outcome e).state.pos = w.state.pos :=
  w.state.change_pos e.status

theorem outcome_machine (w : Walk g) (e : Ending) :
    (w.outcome e).state.machine = w.state.machine :=
  w.state.change_machine e.status

end Outcome

section Stopping

/-- How a run that has made every turn it may make is stopped. -/
def halt (s : Setup) (w : Walk g) : Walk g × Ending :=
  match s.canceled? w.state.steps with
  | some cause => (w, .canceled cause)
  | none => (w.tick, .stepLimit)

/-- A run that has not ended by itself is stopped. -/
def close (s : Setup) : Walk g × Option Ending → Walk g × Ending
  | (w, some ending) => (w, ending)
  | (w, none) => w.halt s

end Stopping

end Walk

namespace Setup

variable {s : Setup} {steps left : Nat}

/-- How many turns a run may make that has counted `steps` steps, `left` before its step limit. -/
def turns (s : Setup) (left steps : Nat) : Nat :=
  match s.cancellation with
  | some c => min left (c.after - steps)
  | none => left

theorem turns_zero (s : Setup) (steps : Nat) : s.turns 0 steps = 0 := by
  unfold turns
  split
  · exact Nat.zero_min _
  · rfl

theorem turns_le (s : Setup) (left steps : Nat) : s.turns left steps ≤ left := by
  unfold turns
  split
  · exact Nat.min_le_left _ _
  · exact Nat.le_refl left

theorem turns_of_canceled {cause : CancelCause} (h : s.canceled? steps = some cause) (left : Nat) :
    s.turns left steps = 0 := by
  unfold canceled? at h
  unfold turns
  cases hc : s.cancellation with
  | none => simp [hc] at h
  | some c =>
    have hafter : c.after ≤ steps := by
      by_contra hlt
      simp [hc, hlt] at h
    dsimp only
    omega

theorem turns_succ (h : s.canceled? steps = none) (left : Nat) :
    s.turns (left + 1) steps = s.turns left (steps + 1) + 1 := by
  unfold canceled? at h
  unfold turns
  cases hc : s.cancellation with
  | none => rfl
  | some c =>
    have hafter : ¬ c.after ≤ steps := by
      intro hle
      simp [hc, hle] at h
    dsimp only
    omega

end Setup

namespace Walk

variable {g : Grid}

theorem halt_canceled {s : Setup} {w : Walk g} {cause : CancelCause}
    (h : s.canceled? w.state.steps = some cause) : w.halt s = (w, .canceled cause) := by
  unfold halt
  rw [h]

theorem halt_stepLimit {s : Setup} {w : Walk g} (h : s.canceled? w.state.steps = none) :
    w.halt s = (w.tick, .stepLimit) := by
  unfold halt
  rw [h]

theorem close_of_ended {s : Setup} {r : Walk g × Option Ending} {e : Ending} (h : r.2 = some e) :
    close s r = (r.1, e) := by
  cases r
  cases h
  rfl

theorem close_of_none {s : Setup} {r : Walk g × Option Ending} (h : r.2 = none) :
    close s r = r.1.halt s := by
  cases r
  cases h
  rfl

/-- Being stopped counts one more step at most. -/
theorem close_cases (s : Setup) (r : Walk g × Option Ending) :
    (close s r).1 = r.1 ∨ (close s r).1 = r.1.tick := by
  cases hr : r.2 with
  | some e => exact Or.inl (by rw [close_of_ended hr])
  | none =>
    rw [close_of_none hr]
    unfold halt
    split
    · exact Or.inl rfl
    · exact Or.inr rfl

theorem close_history (s : Setup) (r : Walk g × Option Ending) :
    (close s r).1.history = r.1.history := by
  rcases close_cases s r with h | h <;> rw [h]
  rfl

theorem close_machine (s : Setup) (r : Walk g × Option Ending) :
    (close s r).1.state.machine = r.1.state.machine := by
  rcases close_cases s r with h | h <;> rw [h]
  rfl

theorem close_status (s : Setup) (r : Walk g × Option Ending) :
    (close s r).1.state.status = r.1.state.status := by
  rcases close_cases s r with h | h <;> rw [h]
  rfl

/-- Two runs with one cancellation that have come equally far are stopped the same way. -/
theorem close_side_by_side {g' : Grid} {R : Walk g → Walk g' → Prop} (s s' : Setup)
    (hs : s'.cancellation = s.cancellation) (htick : ∀ w w', R w w' → R w.tick w'.tick)
    (hsteps : ∀ w w', R w w' → w'.state.steps = w.state.steps)
    {r : Walk g × Option Ending} {r' : Walk g' × Option Ending} (h : R r.1 r'.1)
    (hending : r'.2 = r.2) :
    R (close s r).1 (close s' r').1 ∧ (close s' r').2 = (close s r).2 := by
  cases hout : r.2 with
  | some e =>
    rw [hout] at hending
    rw [close_of_ended hout, close_of_ended hending]
    exact ⟨h, rfl⟩
  | none =>
    rw [hout] at hending
    rw [close_of_none hout, close_of_none hending]
    have hcanceled : s'.canceled? r'.1.state.steps = s.canceled? r.1.state.steps := by
      unfold Setup.canceled?
      rw [hs, hsteps _ _ h]
    cases hc : s.canceled? r.1.state.steps with
    | some cause =>
      rw [halt_canceled hc, halt_canceled (hcanceled.trans hc)]
      exact ⟨h, rfl⟩
    | none =>
      rw [halt_stepLimit hc, halt_stepLimit (hcanceled.trans hc)]
      exact ⟨htick _ _ h, rfl⟩

/-- The turns of a run are those of its trajectory up to where it is stopped. -/
theorem loop_eq_travel (s : Setup) (left : Nat) (w : Walk g) :
    loop s left w = close s (travel s.instructions (s.turns left w.state.steps) w) := by
  induction left generalizing w with
  | zero =>
    rw [Setup.turns_zero]
    cases hc : s.canceled? w.state.steps with
    | some cause => exact (loop_canceled hc 0).trans (halt_canceled hc).symm
    | none => exact (loop_zero hc).trans (halt_stepLimit hc).symm
  | succ left ih =>
    cases hc : s.canceled? w.state.steps with
    | some cause =>
      rw [Setup.turns_of_canceled hc]
      exact (loop_canceled hc _).trans (halt_canceled hc).symm
    | none =>
      -- A turn takes one off what the step limit leaves and one off what the cancellation leaves.
      have hsteps := begin_advance_steps s.instructions w
      rw [loop_succ hc, Setup.turns_succ hc, travel]
      cases hout : w.begin.advance s.instructions with
      | mk after ending =>
        rw [hout] at hsteps
        cases ending with
        | some ending => rfl
        | none =>
          dsimp only at hsteps ⊢
          rw [ih, hsteps]

end Walk

namespace Setup

/-- The trajectory of a run, of which step limit and cancellation have no part. -/
def travel (s : Setup) (trace : Option Sink) (n : Nat) : Walk s.program.grid × Option Ending :=
  Walk.travel s.instructions n (s.outset trace)

variable {s : Setup} {trace : Option Sink} {n : Nat} {e : Ending}

theorem walk_eq_close (s : Setup) (trace : Option Sink) :
    s.walk trace = (Walk.close s (s.travel trace (s.turns (s.stepLimit - 1) 0))).1.outcome
      (Walk.close s (s.travel trace (s.turns (s.stepLimit - 1) 0))).2 := by
  rw [walk_eq_outcome, Walk.loop_eq_travel]
  rfl

theorem walk_of_ended (hn : s.turns (s.stepLimit - 1) 0 = n)
    (h : (s.travel trace n).2 = some e) : s.walk trace = (s.travel trace n).1.outcome e := by
  rw [walk_eq_close, hn, Walk.close_of_ended h]

theorem walk_of_none (hn : s.turns (s.stepLimit - 1) 0 = n)
    (h : (s.travel trace n).2 = none) :
    s.walk trace = ((s.travel trace n).1.halt s).1.outcome ((s.travel trace n).1.halt s).2 := by
  rw [walk_eq_close, hn, Walk.close_of_none h]

theorem travel_status (s : Setup) (trace : Option Sink) (n : Nat) :
    (s.travel trace n).1.state.status = .running :=
  Walk.travel_status s.instructions n rfl

theorem travel_of_ended {m n : Nat} (hle : m ≤ n) (h : (s.travel trace m).2 = some e) :
    s.travel trace n = s.travel trace m := by
  obtain ⟨k, rfl⟩ := Nat.exists_eq_add_of_le hle
  exact Walk.travel_add_of_ended h k

theorem travel_none_of_le {m n : Nat} (hle : m ≤ n) (h : (s.travel trace n).2 = none) :
    (s.travel trace m).2 = none := by
  cases hm : (s.travel trace m).2 with
  | none => rfl
  | some e =>
    rw [travel_of_ended hle hm, hm] at h
    exact h

theorem travel_succ (h : (s.travel trace n).2 = none) :
    s.travel trace (n + 1) = (s.travel trace n).1.begin.advance s.instructions :=
  (Walk.travel_add_of_none h 1).trans (Walk.travel_one _)

theorem travel_steps (h : (s.travel trace n).2 = none) :
    (s.travel trace n).1.state.steps = n :=
  (Walk.travel_steps_of_none h).trans (Nat.zero_add n)

theorem travel_steps_le (h : (s.travel trace n).2 = some e) :
    (s.travel trace n).1.state.steps ≤ n := by
  have hsteps := (Walk.travel_steps_of_ended h).2
  rwa [show (s.outset trace).state.steps = 0 from rfl, Nat.zero_add] at hsteps

theorem lt_steps_travel {m : Nat} (hle : m ≤ n) (hm : (s.travel trace m).2 = none)
    (hn : (s.travel trace n).2 = some e) : m < (s.travel trace n).1.state.steps := by
  obtain ⟨k, rfl⟩ := Nat.exists_eq_add_of_le hle
  have hadd : s.travel trace (m + k) = Walk.travel s.instructions k (s.travel trace m).1 :=
    Walk.travel_add_of_none hm k
  rw [hadd] at hn ⊢
  have hsteps := (Walk.travel_steps_of_ended hn).1
  rwa [travel_steps hm] at hsteps

end Setup

end Codel
