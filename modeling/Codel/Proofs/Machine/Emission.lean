import Codel.Proofs.Machine.Sink

namespace Codel

/-- The form in which an operation writes. -/
def Form.ofOp? (op : OpCode) : Option Form :=
  if op = OpCode.outNumber then some .number
  else if op = OpCode.outChar then some .char
  else none

namespace Machine

/-- The machine without what was written. -/
def mute (m : Machine) : Machine := { m with output := {}, prompt := none }

theorem mute_stack (m : Machine) : m.mute.stack = m.stack := rfl

theorem mute_input (m : Machine) : m.mute.input = m.input := rfl

theorem mute_eq_iff {m m' : Machine} : m.mute = m'.mute ↔
    m.stack = m'.stack ∧ m.dp = m'.dp ∧ m.cc = m'.cc ∧ m.input = m'.input := by
  simp [mute]

end Machine

namespace Executor

variable {m : Machine}

theorem unary_mute {f : Machine → Int64 → Machine} (hf : ∀ m v, (f m v).mute = (f m.mute v).mute)
    (m : Machine) : (unary m f).mute = (unary m.mute f).mute := by
  unfold unary
  rw [Machine.mute_stack]
  cases m.stack.pop? with
  | none => rfl
  | some popped => exact hf _ _

theorem binary_mute (op : OpCode) (m : Machine) : (binary op m).mute = (binary op m.mute).mute := by
  unfold binary
  rw [Machine.mute_stack]
  cases m.stack.pop2? with
  | none => rfl
  | some popped =>
    dsimp only
    cases arithmetic? op popped.1 popped.2.1 <;> rfl

theorem rotate_mute (m : Machine) : (rotate m).mute = (rotate m.mute).mute := by
  unfold rotate
  rw [Machine.mute_stack]
  cases m.stack.pop2? <;> rfl

theorem read_mute (op : OpCode) (m : Machine) : (read op m).mute = (read op m.mute).mute := by
  unfold read
  split
  · -- The read is announced to the prompt, if at all, and the prompt is what muting takes away.
    change (pushRead (lineNumber? (takeLine m.input).1, _)).mute =
      (pushRead (lineNumber? (takeLine m.input).1, _)).mute
    cases lineNumber? (takeLine m.input).1 <;> rfl
  · split
    · unfold Machine.readChar
      rw [Machine.mute_input]
      cases nextPiece? m.input <;> rfl
    · rfl

theorem emit_mute (op : OpCode) (m : Machine) : (emit op m).1.mute = (emit op m.mute).1.mute := by
  unfold emit
  rw [Machine.mute_stack]
  cases m.stack.pop? with
  | none => rfl
  | some popped =>
    dsimp only
    split
    · rfl
    · split <;> rfl

theorem emit_of_form {op : OpCode} {form : Form} {v : Int64} {rest : Stack}
    (hform : Form.ofOp? op = some form) (hpop : m.stack.pop? = some (v, rest)) :
    emit op m = ({ m with stack := rest } : Machine).write form v := by
  unfold Form.ofOp? at hform
  unfold emit
  rw [hpop]
  dsimp only
  split at hform
  next hop =>
    cases hform
    exact if_pos hop
  next hop =>
    split at hform
    next hchar =>
      cases hform
      rw [if_neg hop]
      exact if_pos hchar
    next => simp at hform

theorem emit_of_none {op : OpCode} (h : Form.ofOp? op = none ∨ m.stack.pop? = none) :
    (emit op m).1.output = m.output ∧ (emit op m).2 = none := by
  unfold emit
  cases hpop : m.stack.pop? with
  | none => exact ⟨rfl, rfl⟩
  | some popped =>
    have hform : Form.ofOp? op = none := by simpa [hpop] using h
    unfold Form.ofOp? at hform
    split_ifs at hform with hnumber hchar
    simp only [if_neg hnumber, if_neg hchar, and_self]

/-- No executor looks at what was written. -/
theorem run_mute (e : Executor) (op : OpCode) (operand : Nat) (m : Machine) :
    (e.run op operand m).1.mute = (e.run op operand m.mute).1.mute := by
  cases e with
  | noop => rfl
  | push => rfl
  | pop => exact unary_mute (fun _ _ => rfl) m
  | arithmetic => exact binary_mute op m
  | not => exact unary_mute (fun _ _ => rfl) m
  | pointer => exact unary_mute (fun _ _ => rfl) m
  | switch =>
    refine unary_mute (fun m v => ?_) m
    split <;> rfl
  | duplicate =>
    unfold run
    dsimp only
    rw [Machine.mute_stack]
    cases m.stack.peek? <;> rfl
  | roll => exact rotate_mute m
  | input => exact read_mute op m
  | output => exact emit_mute op m

theorem run_fault (e : Executor) (op : OpCode) (operand : Nat) (m : Machine) (h : e ≠ .output) :
    (e.run op operand m).2 = none := by
  cases e with
  | output => exact absurd rfl h
  | duplicate =>
    unfold run
    dsimp only
    split <;> rfl
  | _ => rfl

end Executor

namespace InstructionSet

variable {set : InstructionSet} {i : Instruction} {m : Machine} {form : Form} {v : Int64}

theorem execute_mute (set : InstructionSet) (i : Instruction) (m : Machine) :
    (set.execute i m).1.mute = (set.execute i m.mute).1.mute := by
  unfold execute
  split
  · rfl
  · exact Executor.run_mute _ _ _ m

/-- The form and the value that an instruction writes, whatever becomes of them. -/
def written? (set : InstructionSet) (i : Instruction) (stack : Stack) : Option (Form × Int64) :=
  if set.executor i.op = .output then
    match Form.ofOp? i.op, stack.pop? with
    | some form, some (v, _) => some (form, v)
    | _, _ => none
  else none

theorem execute_of_written (h : set.written? i m.stack = some (form, v)) :
    (set.execute i m).1.output = m.output.write (form.bytes v) ∧
      (set.execute i m).2 =
        if m.output.takes (form.bytes v) then none else some ⟨form, v, m.output.cause⟩ := by
  unfold written? at h
  split at h
  next houtput =>
    split at h
    next hform hpop =>
      cases h
      have hidle : ¬ i.isIdle = true := by
        intro hidle
        have hnone : Form.ofOp? OpCode.none = none := by decide
        rw [of_decide_eq_true hidle, hnone] at hform
        simp at hform
      have hexecute : set.execute i m = Executor.emit i.op m := by
        unfold execute
        rw [if_neg hidle, houtput]
        rfl
      rw [hexecute, Executor.emit_of_form hform hpop]
      exact ⟨rfl, rfl⟩
    next => simp at h
  next => simp at h

theorem execute_of_not_written (h : set.written? i m.stack = none) :
    (set.execute i m).1.output = m.output ∧ (set.execute i m).2 = none := by
  unfold execute
  split
  · exact ⟨rfl, rfl⟩
  · by_cases houtput : set.executor i.op = .output
    · rw [houtput]
      apply Executor.emit_of_none
      unfold written? at h
      rw [if_pos houtput] at h
      cases hform : Form.ofOp? i.op with
      | none => exact Or.inl rfl
      | some form =>
        refine Or.inr ?_
        cases hpop : m.stack.pop? with
        | none => rfl
        | some popped => simp [hform, hpop] at h
    · have heffect := Executor.run_effect (set.executor i.op) i.op i.operand m
      exact ⟨heffect.output.resolve_right houtput, Executor.run_fault _ _ _ m houtput⟩

end InstructionSet

end Codel
