import Codel.Proofs.Run.Reach
import Codel.Proofs.Safety.Operations
import Codel.Proofs.Safety.Programs

namespace Codel

namespace Guarded

section Showing

/-- The name of a colour, looked up in the table of names. -/
def name (c : Colour) : Except Fault String :=
  if c.index < 0 ∨ Colour.names.length ≤ c.index then
    fetch .names Colour.names.toArray Colour.unknown.index
  else fetch .names Colour.names.toArray c.index

theorem name_eq (c : Colour) : name c = .ok c.name := by
  obtain ⟨index⟩ := c
  unfold name Colour.name
  by_cases hneg : index < 0
  · rw [if_pos (Or.inl hneg), if_pos hneg]
    rfl
  · obtain ⟨i, rfl⟩ := Int.eq_ofNat_of_zero_le (Int.not_lt.mp hneg)
    by_cases hlong : Colour.names.length ≤ i
    · rw [if_pos (Or.inr (Int.ofNat_le.mpr hlong)), if_neg hneg]
      dsimp only
      rw [Int.toNat_natCast, List.getElem?_eq_none hlong]
      rfl
    · have hlt : i < Colour.names.length := Nat.not_le.mp hlong
      rw [if_neg (by simp only [Int.ofNat_le]; omega), if_neg hneg]
      dsimp only
      rw [Int.toNat_natCast, List.getElem?_eq_getElem hlt]
      exact fetch_of_getElem? (by simp)

/-- The values of a stack, put into a slice from its end on. -/
def values (s : Stack) : Except Fault (List Int64) := do
  let out ← (List.finRange s.items.length).foldlM (fun out i =>
    store .values out ((s.items.length : Int) - 1 - i.val) (s.items.get i))
    (Vector.replicate s.items.length 0)
  return out.toList

theorem values_eq (s : Stack) : values s = .ok s.values := by
  obtain ⟨items⟩ := s
  have hstep : ∀ out : Vector Int64 items.length, ∀ i ∈ List.finRange items.length,
      store .values out ((items.length : Int) - 1 - i.val) (items.get i) =
        .ok (assign out i.rev (items.get i)) := by
    intro out i _
    have hindex : (items.length : Int) - 1 - i.val = i.rev.val := by
      rw [Fin.val_rev]
      omega
    rw [hindex, store_vector]
  unfold values
  dsimp only
  rw [foldlM_ok hstep, ok_bind]
  refine congrArg Except.ok ?_
  apply List.ext_getElem
  · simp [Stack.values]
  · intro i hi hi'
    have hin : i < items.length := by simpa using hi
    have hget := get_assigns Fin.rev_injective items.get (List.finRange items.length)
      (Vector.replicate items.length 0) (Fin.rev ⟨i, hin⟩)
    rw [if_pos (List.mem_finRange _), Fin.rev_rev] at hget
    simp only [Stack.values, List.getElem_reverse, Vector.getElem_toList]
    refine hget.trans ?_
    simp [Fin.rev, Nat.sub_sub, Nat.add_comm]

def record (t : Transition) : Except Fault Trace.Step := do
  let colour ← name t.colour
  let stack ← values t.stack
  return { t.record with colour := Bytes.ofString colour, stack := some stack }

theorem record_eq (t : Transition) : record t = .ok t.record := by
  unfold record
  rw [name_eq, ok_bind, values_eq, ok_bind]
  rfl

end Showing

section Turns

variable {g : Grid}

/-- Adds a transition to the record; what is shown of it is made up whether a trace asks for it or
not. -/
def observe (w : Walk g) (t : Transition) : Except Fault (Walk g × Option Ending) := do
  let r ← record t
  match w.trace with
  | none => return ({ w with history := t :: w.history }, none)
  | some sink =>
    return ({ w with history := t :: w.history, trace := some (sink.write r.encode) },
      if sink.takes r.encode then none
      else some (.untraced (.step (Int64.ofNat t.step) sink.cause)))

theorem observe_eq (w : Walk g) (t : Transition) : observe w t = .ok (w.observe t) := by
  unfold observe Walk.observe
  rw [record_eq, ok_bind]
  cases w.trace with
  | none => rfl
  | some sink => rfl

def advance (set : InstructionSet) (w : Walk g) : Except Fault (Walk g × Option Ending) := do
  let (current, locator) ← find w.locator w.state.pos
  let move ← navigate g current.codels w.state.machine.dp w.state.machine.cc
  let state := w.state.turn move
  if move.blocked then return ({ w with state := state, locator := locator }, some .blocked)
  else
    let (next, locator) ← find locator move.target
    let i ← instruction current next
    let (machine, fault) ← perform set i state.machine
    let colour ← colourAt g move.target
    let state := { state with machine := machine, pos := move.target }
    observe { w with
      state := state
      locator := locator
      counters := w.counters.count i } {
      step := state.steps
      instruction := i
      pos := move.target
      colour := colour
      dp := machine.dp
      cc := machine.cc
      stack := machine.stack
      fault := fault }

/-- A locator that numbers codels by the blocks it remembers is all that a turn relies on. -/
theorem advance_eq (hg : g.Addressable) (set : InstructionSet) {w : Walk g}
    (h : w.locator.Valid) : advance set w = .ok (w.advance set) := by
  have hfound := (h.find w.state.pos).2
  unfold advance Walk.advance
  rw [find_eq hg h, ok_bind]
  dsimp only
  rw [navigate_eq hg, ok_bind]
  split
  · rfl
  · rw [find_eq hg hfound, ok_bind, instruction_eq, ok_bind, perform_eq, ok_bind, colourAt_eq hg,
      ok_bind]
    exact observe_eq _ _

def loop (s : Setup) : (left : Nat) → Walk g → Except Fault (Walk g × Ending)
  | left, w =>
    match s.canceled? w.state.steps with
    | some cause => return (w, .canceled cause)
    | none =>
      match left with
      | 0 => return (w.tick, .stepLimit)
      | left + 1 => do
        match ← advance s.instructions w.begin with
        | (w, some ending) => return (w, ending)
        | (w, none) => loop s left w

theorem loop_eq (hg : g.Addressable) (s : Setup) (left : Nat) {w : Walk g} (h : w.Ready) :
    loop s left w = .ok (Walk.loop s left w) := by
  induction left generalizing w with
  | zero =>
    unfold loop
    cases hc : s.canceled? w.state.steps with
    | some cause => rw [Walk.loop_canceled hc]; rfl
    | none => rw [Walk.loop_zero hc]; rfl
  | succ left ih =>
    have hnext : (w.begin.advance s.instructions).1.Ready := h.begin.advance s.instructions
    unfold loop
    cases hc : s.canceled? w.state.steps with
    | some cause => rw [Walk.loop_canceled hc]; rfl
    | none =>
      rw [Walk.loop_succ hc]
      dsimp only
      rw [advance_eq hg s.instructions h.begin.locator, ok_bind]
      cases hout : w.begin.advance s.instructions with
      | mk after ending =>
        rw [hout] at hnext
        cases ending with
        | some ending => rfl
        | none => exact ih hnext

end Turns

section Running

/-- Runs the program, its trace being open, and lists what is left on the stack. -/
def walk (s : Setup) (trace : Option Sink) : Except Fault Outcome := do
  let (w, ending) ← loop s (s.stepLimit - 1) (s.outset trace)
  let _ ← values w.state.machine.stack
  return w.outcome ending

def execute (s : Setup) : Except Fault Outcome :=
  match s.trace with
  | none => walk s none
  | some sink =>
    if sink.takes s.header.encode then walk s (some (sink.write s.header.encode))
    else
      return {
        state := { machine := s.machine }
        ending := none
        error := some (.untraced (.header sink.cause))
        transitions := []
        trace := some (sink.write s.header.encode) }

theorem walk_eq {s : Setup} (hg : s.program.grid.Addressable) (trace : Option Sink) :
    walk s trace = .ok (s.walk trace) := by
  unfold walk
  rw [loop_eq hg s _ (s.outset_ready trace), ok_bind]
  dsimp only
  rw [values_eq, ok_bind, s.walk_eq_outcome]
  rfl

theorem execute_eq {s : Setup} (hg : s.program.grid.Addressable) : execute s = .ok s.execute := by
  unfold execute Setup.execute
  cases s.trace with
  | none => exact walk_eq hg none
  | some sink =>
    dsimp only
    split
    · exact walk_eq hg _
    · rfl

end Running

end Guarded

/-- An accepted program has its codels, and whatever it is run with, no access of the run is out of
range and nothing is divided by zero. Rolled values go where 64-bit arithmetic says. -/
theorem no_run_faults :
    (∀ rows p, Program.ofRows rows = .ok p →
      p.grid.Filled ∧ p.grid.codels.toList = rows.flatten) ∧
    (∀ (r : Raster) (x₀ y₀ x₁ y₁ n : Int64) p, r.Bounded x₀ y₀ x₁ y₁ → x₀ ≤ x₁ → y₀ ≤ y₁ →
      x₁.toInt - x₀.toInt < 2 ^ 63 → y₁.toInt - y₀.toInt < 2 ^ 63 →
      Program.ofRaster r n = .ok p → p.grid.Filled) ∧
    (∀ s : Setup, s.program.Made → Guarded.execute s = .ok s.execute) ∧
    (∀ (depth rolls : Int64) (i : Nat), i < depth.toInt → depth.toInt ≤ 2 ^ 62 →
      (Guarded.wordEntry depth rolls i).toInt =
        (i + Guarded.reduced depth.toInt rolls.toInt).tmod depth.toInt) := by
  refine ⟨fun rows p h => Program.ofRows_eq_ok h, ?_, ?_, ?_⟩
  · intro r x₀ y₀ x₁ y₁ n p hbounds hx hy hspanx hspany h
    have hwidth : 0 ≤ r.width := by
      rw [hbounds.width, toInt_sub_of_le hx hspanx]
      exact Int.sub_nonneg.mpr (Int64.le_iff_toInt_le.mp hx)
    have hheight : 0 ≤ r.height := by
      rw [hbounds.height, toInt_sub_of_le hy hspany]
      exact Int.sub_nonneg.mpr (Int64.le_iff_toInt_le.mp hy)
    exact (Program.ofRaster_eq_ok h).filled hwidth hheight
  · exact fun s h => Guarded.execute_eq h.addressable
  · exact fun depth rolls i hi hdepth => Guarded.toInt_wordEntry hi hdepth

/-- Four pushes and a roll that turns two values over. -/
theorem no_run_faults_roll : ∃ (s : Setup) (r : Raster) (p : Program),
    s.program.Made ∧ s.program.grid.Filled ∧ Guarded.execute s = .ok s.execute ∧
    s.execute.state.machine.stack.values = [1, 2] ∧
    r.Bounded 3 (-1) 5 0 ∧ Program.ofRaster r 1 = .ok p ∧ p.grid.Filled := by
  obtain ⟨hrows, hpicture, hruns, _⟩ := no_run_faults
  let row : List Colour := [.ofHue 0 0, .ofHue 0 0, .ofHue 0 1, .ofHue 0 2, .ofHue 0 2, .ofHue 0 0,
    .ofHue 0 1, .ofHue 4 2]
  let s : Setup := {
    program := { grid := Grid.ofFn 8 1 fun x y =>
      (([row].map List.toArray).toArray[y]?.bind (·[x]?)).getD Colour.unknown }
    run := RunId.nil
    stepLimit := 6 }
  have hprogram : Program.ofRows [row] = .ok s.program := rfl
  have hmade : s.program.Made := .rows hprogram (by decide)
  let r := Raster.between 3 (-1) 5 0 #[.straight 255 0 0 255, .straight 0 0 255 255]
  obtain ⟨p, hp⟩ : ∃ p, Program.ofRaster r 1 = .ok p := ⟨_, rfl⟩
  have hbounds : r.Bounded 3 (-1) 5 0 := Raster.bounded_between _ _ _ _ _
  exact ⟨s, r, p, hmade, (hrows _ _ hprogram).1, hruns s hmade, by decide +kernel, hbounds, hp,
    hpicture r 3 (-1) 5 0 1 p hbounds (by decide) (by decide) (by decide) (by decide) hp⟩

end Codel
