import Codel.Proofs.Grid.Navigation
import Codel.Run.Basic

namespace Codel

theorem Direction.rotate_mem_compass {d : Direction} (h : d ∈ compass) (n : Int64) :
    d.rotate n ∈ compass := by
  unfold rotate
  generalize fewTurns n.toNatClampNeg = turns
  induction turns with
  | zero => exact h
  | succ turns ih => exact clockwise_mem_compass ih

namespace Stack

variable {s t : Stack} {a b v : Int64}

@[simp] theorem size_push (s : Stack) (v : Int64) : (s.push v).size = s.size + 1 := rfl

theorem size_of_pop? (h : s.pop? = some (v, t)) : s.size = t.size + 1 := by
  unfold pop? at h
  split at h
  next hs =>
    cases Option.some.inj h
    simp [size, hs]
  next => simp at h

theorem size_of_pop2? (h : s.pop2? = some (a, b, t)) : s.size = t.size + 2 := by
  unfold pop2? at h
  split at h
  next hs =>
    cases Option.some.inj h
    simp [size, hs]
  next => simp at h

theorem items_pushes (vs : List Int64) (s : Stack) :
    (vs.foldl push s).items = vs.reverse ++ s.items := by
  induction vs generalizing s with
  | nil => rfl
  | cons v vs ih =>
    rw [List.foldl_cons, ih, List.reverse_cons, List.append_assoc]
    rfl

theorem size_pushes (vs : List Int64) (s : Stack) :
    (vs.foldl push s).size = s.size + vs.length := by
  unfold size
  rw [items_pushes, List.length_append, List.length_reverse, Nat.add_comm]

theorem length_rotateLeft (vs : List Int64) (n : Nat) : (vs.rotateLeft n).length = vs.length := by
  unfold List.rotateLeft
  dsimp only
  split
  · rfl
  · simp only [List.length_append, List.length_drop, List.length_take]
    omega

theorem size_of_roll? {depth rolls : Int64} (h : s.roll? depth rolls = some t) :
    t.size = s.size := by
  unfold roll? at h
  split at h
  · cases Option.some.inj h
    simp only [size, List.length_append, length_rotateLeft, List.length_take, List.length_drop]
    omega
  · simp at h

end Stack

structure Machine.Oriented (m : Machine) : Prop where
  dp : m.dp ∈ Direction.compass
  cc : m.cc ∈ Chooser.both

theorem length_arithmetic? {op : OpCode} {a b : Int64} {vs : List Int64}
    (h : arithmetic? op a b = some vs) : vs.length ≤ 1 := by
  unfold arithmetic? at h
  split_ifs at h <;> cases Option.some.inj h <;> simp

namespace Executor

variable {e : Executor} {op : OpCode} {operand : Nat} {m : Machine}

theorem unary_cases (m : Machine) (f : Machine → Int64 → Machine) :
    unary m f = m ∨
      ∃ v rest, m.stack.pop? = some (v, rest) ∧ unary m f = f { m with stack := rest } v := by
  unfold unary
  split
  next v rest h => exact Or.inr ⟨v, rest, h, rfl⟩
  next => exact Or.inl rfl

theorem binary_cases (op : OpCode) (m : Machine) :
    binary op m = m ∨ ∃ s, s.size ≤ m.stack.size ∧ binary op m = { m with stack := s } := by
  unfold binary
  split
  next a b rest h =>
    have hsize := Stack.size_of_pop2? h
    split
    next vs hvs =>
      have hlen := length_arithmetic? hvs
      exact Or.inr ⟨_, by rw [Stack.size_pushes]; omega, rfl⟩
    next => exact Or.inl rfl
  next => exact Or.inl rfl

theorem rotate_cases (m : Machine) :
    rotate m = m ∨ ∃ s, s.size ≤ m.stack.size ∧ rotate m = { m with stack := s } := by
  unfold rotate
  split
  next depth rolls rest h =>
    have hsize := Stack.size_of_pop2? h
    refine Or.inr ⟨_, ?_, rfl⟩
    cases hroll : rest.roll? depth rolls with
    | none =>
      rw [Option.getD_none]
      omega
    | some s =>
      have := Stack.size_of_roll? hroll
      rw [Option.getD_some]
      omega
  next => exact Or.inl rfl

/-- Reading leaves the pointers and the output alone and adds one value at most. -/
theorem read_cases (op : OpCode) (m : Machine) : ∃ s input prompt, s.size ≤ m.stack.size + 1 ∧
    read op m = { m with stack := s, input := input, prompt := prompt } := by
  have hpush : ∀ (r : Option Int64) (input : Bytes) (prompt : Option Sink),
      ∃ s, s.size ≤ m.stack.size + 1 ∧
        pushRead (r, { m with input := input, prompt := prompt }) =
          { m with stack := s, input := input, prompt := prompt } := by
    intro r input prompt
    cases r with
    | none => exact ⟨m.stack, Nat.le_succ _, rfl⟩
    | some v => exact ⟨m.stack.push v, Nat.le_refl _, rfl⟩
  unfold read
  split
  · obtain ⟨s, hs, heq⟩ := hpush (lineNumber? (takeLine m.input).1) (takeLine m.input).2
      (m.prompt.map fun k => k.write (Bytes.ofString "Enter number: "))
    exact ⟨s, _, _, hs, heq⟩
  · split
    · unfold Machine.readChar
      split
      next p rest _ =>
        obtain ⟨s, hs, heq⟩ := hpush (some (Int64.ofNat p.toChar.toNat)) rest m.prompt
        exact ⟨s, _, _, hs, heq⟩
      next => exact ⟨m.stack, m.input, m.prompt, Nat.le_succ _, rfl⟩
    · exact ⟨m.stack, m.input, m.prompt, Nat.le_succ _, rfl⟩

/-- Writing takes one value at most and changes nothing but the stack and the output. -/
theorem emit_cases (op : OpCode) (m : Machine) : ∃ s output, s.size ≤ m.stack.size ∧
    (emit op m).1 = { m with stack := s, output := output } := by
  unfold emit
  split
  next => exact ⟨m.stack, m.output, Nat.le_refl _, rfl⟩
  next v rest h =>
    have hsize := Stack.size_of_pop? h
    dsimp only
    split
    · exact ⟨rest, _, by omega, rfl⟩
    · split
      · exact ⟨rest, _, by omega, rfl⟩
      · exact ⟨rest, m.output, by omega, rfl⟩

/-- What executing an operation may change: each of the pointers, the input and the output has one
executor that changes it, and no executor adds more than one value. -/
structure Effect (e : Executor) (m m' : Machine) : Prop where
  size : m'.stack.size ≤ m.stack.size + 1
  dp : m'.dp = m.dp ∨ e = .pointer ∧ ∃ n, m'.dp = m.dp.rotate n
  cc : m'.cc = m.cc ∨ e = .switch ∧ m'.cc = m.cc.toggle
  input : m'.input = m.input ∧ m'.prompt = m.prompt ∨ e = .input
  output : m'.output = m.output ∨ e = .output

theorem Effect.of_stack {s : Stack} (hs : s.size ≤ m.stack.size + 1) :
    Effect e m { m with stack := s } :=
  ⟨hs, Or.inl rfl, Or.inl rfl, Or.inl ⟨rfl, rfl⟩, Or.inl rfl⟩

theorem Effect.refl (e : Executor) (m : Machine) : Effect e m m := .of_stack (Nat.le_succ _)

theorem run_effect (e : Executor) (op : OpCode) (operand : Nat) (m : Machine) :
    Effect e m (e.run op operand m).1 := by
  cases e with
  | noop => exact .refl _ m
  | push => exact .of_stack (Nat.le_refl _)
  | pop =>
    rcases unary_cases m (fun m _ => m) with h | ⟨v, rest, hpop, h⟩
    · simpa only [run, h] using Effect.refl _ m
    · have := Stack.size_of_pop? hpop
      simpa only [run, h] using Effect.of_stack (by omega)
  | arithmetic =>
    rcases binary_cases op m with h | ⟨s, hs, h⟩
    · simpa only [run, h] using Effect.refl _ m
    · simpa only [run, h] using Effect.of_stack (by omega)
  | not =>
    rcases unary_cases m (fun m v => { m with stack := m.stack.push (if v = 0 then 1 else 0) })
      with h | ⟨v, rest, hpop, h⟩
    · simpa only [run, h] using Effect.refl _ m
    · have := Stack.size_of_pop? hpop
      simpa only [run, h] using Effect.of_stack (by rw [Stack.size_push]; omega)
  | pointer =>
    rcases unary_cases m (fun m v => { m with dp := m.dp.rotate (v % 4) })
      with h | ⟨v, rest, hpop, h⟩
    · simpa only [run, h] using Effect.refl _ m
    · have := Stack.size_of_pop? hpop
      simp only [run, h]
      exact ⟨by dsimp only; omega, Or.inr ⟨rfl, v % 4, rfl⟩, Or.inl rfl, Or.inl ⟨rfl, rfl⟩,
        Or.inl rfl⟩
  | switch =>
    rcases unary_cases m (fun m v => if v % 2 = 1 then { m with cc := m.cc.toggle } else m)
      with h | ⟨v, rest, hpop, h⟩
    · simpa only [run, h] using Effect.refl _ m
    · have := Stack.size_of_pop? hpop
      simp only [run, h]
      split
      · exact ⟨by dsimp only; omega, Or.inl rfl, Or.inr ⟨rfl, rfl⟩, Or.inl ⟨rfl, rfl⟩,
          Or.inl rfl⟩
      · exact .of_stack (by omega)
  | duplicate =>
    unfold run
    dsimp only
    split
    · exact .of_stack (Nat.le_refl _)
    · exact .refl _ m
  | roll =>
    rcases rotate_cases m with h | ⟨s, hs, h⟩
    · simpa only [run, h] using Effect.refl _ m
    · simpa only [run, h] using Effect.of_stack (by omega)
  | input =>
    obtain ⟨s, input, prompt, hs, h⟩ := read_cases op m
    simp only [run, h]
    exact ⟨hs, Or.inl rfl, Or.inl rfl, Or.inr rfl, Or.inl rfl⟩
  | output =>
    obtain ⟨s, output, hs, h⟩ := emit_cases op m
    simp only [run, h]
    exact ⟨by dsimp only; omega, Or.inl rfl, Or.inl rfl, Or.inl ⟨rfl, rfl⟩, Or.inr rfl⟩

theorem Effect.oriented {m' : Machine} (h : Effect e m m') (hm : m.Oriented) : m'.Oriented where
  dp := by
    rcases h.dp with hdp | ⟨_, n, hdp⟩
    · exact hdp ▸ hm.dp
    · exact hdp ▸ Direction.rotate_mem_compass hm.dp n
  cc := by
    rcases h.cc with hcc | ⟨_, hcc⟩
    · exact hcc ▸ hm.cc
    · exact hcc ▸ Chooser.toggle_mem_both m.cc

end Executor

namespace InstructionSet

variable {m : Machine}

/-- An instruction is executed by the executor of its operation, or by none. -/
theorem execute_effect (set : InstructionSet) (i : Instruction) (m : Machine) :
    ∃ e, Executor.Effect e m (set.execute i m).1 := by
  unfold execute
  split
  · exact ⟨.noop, .refl _ m⟩
  · exact ⟨_, Executor.run_effect _ _ _ m⟩

theorem execute_oriented (hm : m.Oriented) (set : InstructionSet) (i : Instruction) :
    (set.execute i m).1.Oriented := by
  obtain ⟨_, h⟩ := execute_effect set i m
  exact h.oriented hm

theorem size_execute_le (set : InstructionSet) (i : Instruction) (m : Machine) :
    (set.execute i m).1.stack.size ≤ m.stack.size + 1 := by
  obtain ⟨_, h⟩ := execute_effect set i m
  exact h.size

end InstructionSet

end Codel
