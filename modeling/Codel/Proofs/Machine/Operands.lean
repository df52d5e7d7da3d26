import Codel.Proofs.Machine.Emission

namespace Codel

namespace Stack

variable {s : Stack}

/-- A stack put on top of another one. -/
def atop (s below : Stack) : Stack := ⟨s.items ++ below.items⟩

theorem values_atop (s below : Stack) : (s.atop below).values = below.values ++ s.values :=
  List.reverse_append

theorem pushes_atop (vs : List Int64) (s below : Stack) :
    (vs.foldl push s).atop below = vs.foldl push (s.atop below) := by
  induction vs generalizing s with
  | nil => rfl
  | cons v vs ih => exact ih (s.push v)

theorem pop?_eq_none (h : s.size < 1) : s.pop? = none := by
  obtain ⟨items⟩ := s
  cases items with
  | nil => rfl
  | cons v rest => simp [size] at h

theorem pop2?_eq_none (h : s.size < 2) : s.pop2? = none := by
  obtain ⟨items⟩ := s
  match items with
  | [] => rfl
  | [_] => rfl
  | _ :: _ :: rest =>
    change rest.length + 1 + 1 < 2 at h
    omega

theorem exists_pop? (h : 1 ≤ s.size) : ∃ v rest, s.pop? = some (v, rest) := by
  obtain ⟨items⟩ := s
  cases items with
  | nil => simp [size] at h
  | cons v rest => exact ⟨v, ⟨rest⟩, rfl⟩

theorem exists_pop2? (h : 2 ≤ s.size) : ∃ a b rest, s.pop2? = some (a, b, rest) := by
  obtain ⟨items⟩ := s
  match items with
  | [] => simp [size] at h
  | [_] => simp [size] at h
  | b :: a :: rest => exact ⟨a, b, ⟨rest⟩, rfl⟩

theorem pop?_atop {v : Int64} {rest : Stack} (h : s.pop? = some (v, rest)) (below : Stack) :
    (s.atop below).pop? = some (v, rest.atop below) := by
  obtain ⟨items⟩ := s
  cases items with
  | nil => simp [pop?] at h
  | cons v rest =>
    cases Option.some.inj h
    rfl

theorem pop2?_atop {a b : Int64} {rest : Stack} (h : s.pop2? = some (a, b, rest)) (below : Stack) :
    (s.atop below).pop2? = some (a, b, rest.atop below) := by
  obtain ⟨items⟩ := s
  match items with
  | [] => simp [pop2?] at h
  | [_] => simp [pop2?] at h
  | _ :: _ :: _ =>
    cases Option.some.inj h
    rfl

/-- A roll that reaches no deeper than the upper stack leaves the lower one alone. -/
theorem roll?_atop {depth : Int64} (h : depth.toInt ≤ s.size) (rolls : Int64) (below : Stack) :
    (s.atop below).roll? depth rolls = (s.roll? depth rolls).map (·.atop below) := by
  have hsize : (s.atop below).size = s.size + below.size := List.length_append
  unfold roll?
  by_cases hpos : 0 < depth.toInt
  · have hle : depth.toInt.toNat ≤ s.items.length := by
      change depth.toInt ≤ s.items.length at h
      omega
    have htake : (s.atop below).items.take depth.toInt.toNat = s.items.take depth.toInt.toNat :=
      List.take_append_of_le_length hle
    have hdrop : (s.atop below).items.drop depth.toInt.toNat =
        s.items.drop depth.toInt.toNat ++ below.items := List.drop_append_of_le_length hle
    rw [if_pos ⟨hpos, by omega⟩, if_pos ⟨hpos, h⟩]
    dsimp only
    rw [htake, hdrop, ← List.append_assoc]
    rfl
  · rw [if_neg (fun hd => hpos hd.1), if_neg (fun hd => hpos hd.1)]
    rfl

end Stack

/-- The machine with another stack put below its own. -/
def Machine.atop (m : Machine) (below : Stack) : Machine := { m with stack := m.stack.atop below }

namespace Executor

variable {m : Machine}

/-- How many values an executor takes off the stack, or looks at. -/
def needs : Executor → Nat
  | noop | push | input => 0
  | pop | not | pointer | switch | duplicate | output => 1
  | arithmetic | roll => 2

/-- An executor that lacks operands does nothing and reports nothing. -/
theorem run_of_underflow {e : Executor} (h : m.stack.size < e.needs) (op : OpCode)
    (operand : Nat) : e.run op operand m = (m, none) := by
  have hunary : m.stack.size < 1 → ∀ f, unary m f = m := by
    intro hsize f
    unfold unary
    rw [Stack.pop?_eq_none hsize]
  cases e with
  | noop => rfl
  | push => exact absurd h (Nat.not_lt_zero _)
  | input => exact absurd h (Nat.not_lt_zero _)
  | pop => exact congrArg (·, none) (hunary h _)
  | not => exact congrArg (·, none) (hunary h _)
  | pointer => exact congrArg (·, none) (hunary h _)
  | switch => exact congrArg (·, none) (hunary h _)
  | duplicate =>
    have hpeek : m.stack.peek? = none := by
      have hitems : m.stack.items = [] := List.length_eq_zero_iff.mp (Nat.lt_one_iff.mp h)
      rw [Stack.peek?, hitems]
      rfl
    unfold run
    dsimp only
    rw [hpeek]
  | arithmetic =>
    unfold run binary
    rw [Stack.pop2?_eq_none h]
  | roll =>
    unfold run rotate
    rw [Stack.pop2?_eq_none h]
  | output =>
    unfold run emit
    rw [Stack.pop?_eq_none h]

section Frame

variable (below : Stack)

theorem unary_atop {f : Machine → Int64 → Machine}
    (hf : ∀ m v, f (m.atop below) v = (f m v).atop below) (h : 1 ≤ m.stack.size) :
    unary (m.atop below) f = (unary m f).atop below := by
  obtain ⟨v, rest, hpop⟩ := Stack.exists_pop? h
  have hatop : (m.atop below).stack.pop? = some (v, rest.atop below) := Stack.pop?_atop hpop below
  unfold unary
  rw [hpop, hatop]
  exact hf { m with stack := rest } v

theorem binary_atop (op : OpCode) (h : 2 ≤ m.stack.size) :
    binary op (m.atop below) = (binary op m).atop below := by
  obtain ⟨a, b, rest, hpop⟩ := Stack.exists_pop2? h
  have hatop : (m.atop below).stack.pop2? = some (a, b, rest.atop below) :=
    Stack.pop2?_atop hpop below
  unfold binary
  rw [hpop, hatop]
  dsimp only
  cases arithmetic? op a b with
  | none => rfl
  | some vs =>
    have hpushes := Stack.pushes_atop vs rest below
    exact congrArg (fun s => { m with stack := s }) hpushes.symm

theorem rotate_atop (h : 2 ≤ m.stack.size)
    (hdepth : ∀ depth rolls rest, m.stack.pop2? = some (depth, rolls, rest) →
      depth.toInt ≤ rest.size) :
    rotate (m.atop below) = (rotate m).atop below := by
  obtain ⟨depth, rolls, rest, hpop⟩ := Stack.exists_pop2? h
  have hatop : (m.atop below).stack.pop2? = some (depth, rolls, rest.atop below) :=
    Stack.pop2?_atop hpop below
  have hroll := Stack.roll?_atop (hdepth depth rolls rest hpop) rolls below
  unfold rotate
  rw [hpop, hatop]
  dsimp only
  rw [hroll]
  cases rest.roll? depth rolls <;> rfl

theorem pushRead_atop (r : Option Int64 × Machine) :
    pushRead (r.1, r.2.atop below) = (pushRead r).atop below := by
  obtain ⟨v, m⟩ := r
  cases v <;> rfl

theorem read_atop (op : OpCode) (m : Machine) :
    read op (m.atop below) = (read op m).atop below := by
  unfold read
  split
  · exact pushRead_atop below m.readNumber
  · split
    · have hchar : (m.atop below).readChar = (m.readChar.1, m.readChar.2.atop below) := by
        have hinput : (m.atop below).input = m.input := rfl
        unfold Machine.readChar
        rw [hinput]
        cases nextPiece? m.input <;> rfl
      rw [hchar]
      exact pushRead_atop below m.readChar
    · rfl

theorem emit_atop (op : OpCode) (h : 1 ≤ m.stack.size) :
    emit op (m.atop below) = ((emit op m).1.atop below, (emit op m).2) := by
  obtain ⟨v, rest, hpop⟩ := Stack.exists_pop? h
  have hatop : (m.atop below).stack.pop? = some (v, rest.atop below) := Stack.pop?_atop hpop below
  unfold emit
  rw [hpop, hatop]
  dsimp only
  split
  · rfl
  · split <;> rfl

/-- An executor that has its operands, and for a roll the values that it is to turn, works on them
as if nothing lay below. -/
theorem run_atop (e : Executor) (op : OpCode) (operand : Nat) (h : e.needs ≤ m.stack.size)
    (hdepth : e = .roll → ∀ depth rolls rest, m.stack.pop2? = some (depth, rolls, rest) →
      depth.toInt ≤ rest.size) :
    e.run op operand (m.atop below) =
      ((e.run op operand m).1.atop below, (e.run op operand m).2) := by
  cases e with
  | noop => rfl
  | push => rfl
  | pop => exact congrArg (·, none) (unary_atop below (fun _ _ => rfl) h)
  | not => exact congrArg (·, none) (unary_atop below (fun _ _ => rfl) h)
  | pointer => exact congrArg (·, none) (unary_atop below (fun _ _ => rfl) h)
  | switch =>
    refine congrArg (·, none) (unary_atop below (fun m v => ?_) h)
    split <;> rfl
  | duplicate =>
    obtain ⟨v, rest, hpop⟩ := Stack.exists_pop? h
    have hpeek : ∀ {s : Stack} {t : Stack}, s.pop? = some (v, t) → s.peek? = some v := by
      rintro ⟨_ | ⟨w, items⟩⟩ t hs
      · simp [Stack.pop?] at hs
      · cases Option.some.inj hs
        rfl
    have hatop : (m.atop below).stack.peek? = some v := hpeek (Stack.pop?_atop hpop below)
    unfold run
    dsimp only
    rw [hpeek hpop, hatop]
    rfl
  | arithmetic => exact congrArg (·, none) (binary_atop below op h)
  | roll => exact congrArg (·, none) (rotate_atop below h (hdepth rfl))
  | input => exact congrArg (·, none) (read_atop below op m)
  | output => exact emit_atop below op h

end Frame

end Executor

/-- How many operands an operation needs on the stack. -/
def OpCode.needs (op : OpCode) : Nat :=
  if op ∈ [add, subtract, multiply, divide, mod, greater, roll] then 2
  else if op ∈ [pop, not, pointer, switch, duplicate, outNumber, outChar] then 1
  else 0

namespace InstructionSet

variable {op : OpCode}

theorem standard_executor_cases (op : OpCode) :
    (op, standard.executor op) ∈ defaults ∨
      op ∉ defaults.map Prod.fst ∧ standard.executor op = .noop := by
  unfold executor HandlerTable.getD HandlerTable.get?
  cases hfind : standard.handlers.find? (fun h => h.1 = op) with
  | some found =>
    have hname : found.1 = op := by simpa using List.find?_some hfind
    have hmem : found ∈ defaults := List.mem_of_find?_eq_some hfind
    rw [← hname]
    exact Or.inl hmem
  | none =>
    refine Or.inr ⟨?_, rfl⟩
    intro hop
    obtain ⟨found, hmem, hname⟩ := List.mem_map.mp hop
    exact List.find?_eq_none.mp hfind found hmem (decide_eq_true hname)

theorem standard_executor_needs (op : OpCode) : (standard.executor op).needs = op.needs := by
  rcases standard_executor_cases op with hmem | ⟨hforeign, hnoop⟩
  · have htable : ∀ h ∈ defaults, h.2.needs = h.1.needs := by decide
    exact htable _ hmem
  · have htwo : op ∉ [OpCode.add, .subtract, .multiply, .divide, .mod, .greater, .roll] :=
      fun hop => hforeign ((by decide : _ ⊆ defaults.map Prod.fst) hop)
    have hone : op ∉ [OpCode.pop, .not, .pointer, .switch, .duplicate, .outNumber, .outChar] :=
      fun hop => hforeign ((by decide : _ ⊆ defaults.map Prod.fst) hop)
    rw [hnoop, OpCode.needs, if_neg htwo, if_neg hone]
    rfl

/-- What holds of the operations that an executor is there for holds of each operation that it
carries out. -/
theorem of_standard_executor (e : Executor) (P : OpCode → Prop) (hne : e ≠ .noop)
    (htable : ∀ h ∈ defaults, h.2 = e → P h.1) (h : standard.executor op = e) : P op := by
  rcases standard_executor_cases op with hmem | ⟨_, hnoop⟩
  · exact htable _ hmem h
  · exact absurd (h.symm.trans hnoop) hne

/-- An operation without its operands does nothing. Pointers, input and output each belong to their
own operations. With its operands there, and for a roll as many values as it turns, an operation does
on top of other values what it does without them, and it adds one value at most. -/
theorem operations_keep_to_their_own (op : OpCode) (size : Nat) (m : Machine) :
    let run := (standard.executor op).run op size
    (m.stack.size < op.needs → run m = (m, none)) ∧
    ((op ≠ .pointer → (run m).1.dp = m.dp) ∧
      (op ≠ .switch → (run m).1.cc = m.cc) ∧
      (op ≠ .inNumber → op ≠ .inChar →
        (run m).1.input = m.input ∧ (run m).1.prompt = m.prompt) ∧
      (op ≠ .outNumber → op ≠ .outChar →
        (run m).1.output = m.output ∧ (run m).2 = none)) ∧
    (∀ below, op.needs ≤ m.stack.size →
      (op = .roll → ∀ depth rolls rest, m.stack.pop2? = some (depth, rolls, rest) →
        depth.toInt ≤ rest.size) →
      run (m.atop below) = ((run m).1.atop below, (run m).2)) ∧
    (run m).1.stack.size ≤ m.stack.size + 1 := by
  intro run
  have hneeds := standard_executor_needs op
  have heffect := Executor.run_effect (standard.executor op) op size m
  have hpointer : standard.executor op = .pointer → op = .pointer :=
    of_standard_executor .pointer (· = .pointer) (by decide) (by decide)
  have hswitch : standard.executor op = .switch → op = .switch :=
    of_standard_executor .switch (· = .switch) (by decide) (by decide)
  have hinput : standard.executor op = .input → op = .inNumber ∨ op = .inChar :=
    of_standard_executor .input (fun op => op = .inNumber ∨ op = .inChar) (by decide) (by decide)
  have houtput : standard.executor op = .output → op = .outNumber ∨ op = .outChar :=
    of_standard_executor .output (fun op => op = .outNumber ∨ op = .outChar) (by decide) (by decide)
  have hroll : standard.executor op = .roll → op = .roll :=
    of_standard_executor .roll (· = .roll) (by decide) (by decide)
  refine ⟨?_, ⟨?_, ?_, ?_, ?_⟩, ?_, heffect.size⟩
  · intro hsize
    exact Executor.run_of_underflow (hneeds ▸ hsize) op size
  · intro hop
    exact heffect.dp.resolve_right fun h => hop (hpointer h.1)
  · intro hop
    exact heffect.cc.resolve_right fun h => hop (hswitch h.1)
  · intro hnumber hchar
    exact heffect.input.resolve_right fun h => (hinput h).elim hnumber hchar
  · intro hnumber hchar
    have hne : standard.executor op ≠ .output := fun h => (houtput h).elim hnumber hchar
    exact ⟨heffect.output.resolve_right hne, Executor.run_fault _ op size m hne⟩
  · intro below hsize hdepth
    exact Executor.run_atop below _ op size (hneeds ▸ hsize) fun h => hdepth (hroll h)

/-- A roll of three values on top of two others, and a roll that finds one value only. -/
theorem operations_keep_to_their_own_roll :
    let run := (standard.executor .roll).run .roll 1
    let m : Machine := { stack := .ofValues [1, 2, 3, 3, 1] }
    let short : Machine := { stack := .ofValues [3] }
    (run (m.atop (.ofValues [9, 8]))).1.stack.values = [9, 8, 3, 1, 2] ∧
      run short = (short, none) := by
  intro run m short
  obtain ⟨_, _, hatop, _⟩ := operations_keep_to_their_own .roll 1 m
  obtain ⟨hshort, _⟩ := operations_keep_to_their_own .roll 1 short
  have hdepth : ∀ depth rolls rest, m.stack.pop2? = some (depth, rolls, rest) →
      depth.toInt ≤ rest.size := by
    rintro depth rolls rest ⟨⟩
    decide
  refine ⟨?_, hshort (by decide)⟩
  have hrun := hatop (.ofValues [9, 8]) (by decide) fun _ => hdepth
  change run (m.atop (.ofValues [9, 8])) = _ at hrun
  rw [hrun]
  exact (Stack.values_atop _ _).trans (by decide)

end InstructionSet

end Codel
