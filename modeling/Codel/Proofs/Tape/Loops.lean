import Codel.Proofs.Tape.JumpTable

namespace Codel.Tape

variable {code : Array UInt8} {input : Bytes} {s : State} {m : JumpMachine} {n : Nat}

namespace State

/-- Before the end of the program the loops under way are the open ones. -/
def Nested (code : Array UInt8) (s : State) : Prop :=
  s.position < code.size → s.loops = openAt code s.position

theorem execByte_at (h : s.position < code.size) :
    execByte code code[s.position] s =
      match commandAt code s.position with
      | some c => exec code c s
      | none => { s with position := s.position + 1 } := by
  rw [commandAt_eq h]
  rfl

theorem exec_loopStart (code : Array UInt8) (s : State) :
    exec code .loopStart s =
      if s.cell = 0 then { s with position := pastLoop code (s.position + 1) 1 }
      else { s with loops := s.position :: s.loops, position := s.position + 1 } := rfl

theorem exec_loopEnd_nil (code : Array UInt8) (hl : s.loops = []) :
    exec code .loopEnd s = { s with position := s.position + 1 } := by
  simp [exec, hl]

theorem exec_loopEnd_cons (code : Array UInt8) {start : Nat} {outer : List Nat}
    (hl : s.loops = start :: outer) :
    exec code .loopEnd s =
      if s.cell = 0 then { s with loops := outer, position := s.position + 1 }
      else { s with position := start + 1 } := by
  simp [exec, hl]

theorem exec_other (code : Array UInt8) (s : State) {c : Command} (hs : c ≠ .loopStart)
    (he : c ≠ .loopEnd) :
    (exec code c s).position = s.position + 1 ∧ (exec code c s).loops = s.loops := by
  cases c with
  | right | left | increment | decrement | write => exact ⟨rfl, rfl⟩
  | read =>
    cases hin : s.input with
    | nil => simp [exec, hin, setCell]
    | cons b rest => simp [exec, hin, setCell]
  | loopStart => exact absurd rfl hs
  | loopEnd => exact absurd rfl he

theorem nested_next (hn : s.Nested code) (h : s.position < code.size)
    (hs : commandAt code s.position ≠ some .loopStart)
    (he : commandAt code s.position ≠ some .loopEnd) {s' : State}
    (hp : s'.position = s.position + 1) (hl : s'.loops = s.loops) : s'.Nested code := by
  intro _
  rw [hl, hp, openAt_other hs he, hn h]

theorem nested_loopStart (hn : s.Nested code) (h : s.position < code.size)
    (hs : commandAt code s.position = some .loopStart) : (exec code .loopStart s).Nested code := by
  rw [exec_loopStart]
  split
  next =>
    intro hend
    dsimp only at hend ⊢
    by_cases hp : ∃ j, Partners code s.position j
    · obtain ⟨j, hj⟩ := hp
      rw [hj.pastLoop_eq, openAt_end hj.stop, hj.openAt_eq, List.tail_cons, hn h]
    · -- Without an end the program is over, where nothing is claimed of the loops.
      have hsize := pastLoop_of_no_partner hs (not_exists.mp hp)
      omega
  next =>
    intro _
    dsimp only
    rw [openAt_start hs, hn h]

theorem nested_loopEnd (hn : s.Nested code) (h : s.position < code.size)
    (he : commandAt code s.position = some .loopEnd) : (exec code .loopEnd s).Nested code := by
  have hopen := hn h
  cases hl : s.loops with
  | nil =>
    intro _
    rw [exec_loopEnd_nil code hl]
    dsimp only
    rw [openAt_end he, ← hopen, hl, List.tail_nil]
  | cons start outer =>
    rw [hl] at hopen
    obtain ⟨_, hstart, houter, _⟩ := openAt_cons hopen.symm
    rw [exec_loopEnd_cons code hl]
    split
    next =>
      intro _
      dsimp only
      rw [openAt_end he, ← hopen, List.tail_cons]
    next =>
      -- The jump goes back into the innermost loop, which stays under way.
      intro _
      dsimp only
      rw [openAt_start hstart, houter, hl]

theorem nested_execByte (hn : s.Nested code) (h : s.position < code.size) :
    (execByte code code[s.position] s).Nested code := by
  rw [execByte_at h]
  cases hc : commandAt code s.position with
  | none => exact nested_next hn h (by simp [hc]) (by simp [hc]) rfl rfl
  | some c =>
    by_cases hs : c = .loopStart
    · subst hs
      exact nested_loopStart hn h hc
    · by_cases he : c = .loopEnd
      · subst he
        exact nested_loopEnd hn h hc
      · obtain ⟨hp, hl⟩ := exec_other code s hs he
        exact nested_next hn h (by simp [hc, hs]) (by simp [hc, he]) hp hl

theorem nested_run (hn : s.Nested code) : (run code n s).Nested code := by
  induction n generalizing s with
  | zero => exact hn
  | succ n ih =>
    rw [run]
    split
    next h => exact ih (nested_execByte hn h)
    next => exact hn

theorem nested_start (code : Array UInt8) (input : Bytes) : (start input).Nested code :=
  fun _ => rfl

end State

namespace JumpMachine

/-- The two machines show the same: tape, positions, input left and output. -/
structure Follows (input : Bytes) (s : State) (m : JumpMachine) : Prop where
  cells : ∀ i (h : i < cellCount), m.cells i = (s.cells[i]).toNat
  pointer : m.pointer = s.pointer.val
  position : m.position = s.position
  unread : s.input = input.drop m.reads
  output : m.output = s.output

theorem Follows.cell (hf : Follows input s m) : m.cell = s.cell.toNat := by
  unfold JumpMachine.cell State.cell
  rw [hf.pointer, hf.cells _ s.pointer.isLt]
  rfl

theorem Follows.cell_eq_zero_iff (hf : Follows input s m) : m.cell = 0 ↔ s.cell = 0 := by
  rw [hf.cell, ← UInt8.toNat_inj]
  rfl

theorem Follows.goto (hf : Follows input s m) (loops : List Nat) (position : Nat) :
    Follows input { s with loops := loops, position := position } (m.goto position) :=
  ⟨hf.cells, hf.pointer, rfl, hf.unread, hf.output⟩

theorem Follows.next (hf : Follows input s m) (loops : List Nat) :
    Follows input { s with loops := loops, position := s.position + 1 } m.next := by
  unfold JumpMachine.next
  rw [hf.position]
  exact hf.goto loops _

theorem Follows.move (hf : Follows input s m) {p : Nat} {pointer : Fin cellCount}
    (hp : p = pointer.val) :
    Follows input { s with pointer := pointer, position := s.position + 1 }
      { m with pointer := p }.next :=
  ⟨hf.cells, hp, congrArg (· + 1) hf.position, hf.unread, hf.output⟩

theorem Follows.store (hf : Follows input s m) (v : UInt8) :
    Follows input (s.setCell v) (m.store v.toNat).next := by
  refine ⟨fun i hi => ?_, hf.pointer, congrArg (· + 1) hf.position, hf.unread, hf.output⟩
  change (if i = m.pointer then v.toNat else m.cells i) = ((s.cells.set s.pointer v)[i]).toNat
  rw [Vector.getElem_set, hf.pointer]
  split
  next he => rw [if_pos he.symm]
  next hne => rw [if_neg (Ne.symm hne), hf.cells i hi]

theorem Follows.read (hf : Follows input s m) :
    Follows input (State.exec code .read s) (m.exec code input .read) := by
  have hunread := hf.unread
  unfold State.exec JumpMachine.exec
  dsimp only
  split
  next hin =>
    have hlen : input.length ≤ m.reads := List.drop_eq_nil_iff.mp (hunread.symm.trans hin)
    have hend : input.drop (m.reads + 1) = [] := List.drop_eq_nil_of_le (by omega)
    have hrest : Follows input s { m with reads := m.reads + 1 } :=
      ⟨hf.cells, hf.pointer, hf.position, hin.trans hend.symm, hf.output⟩
    rw [List.getD_eq_getElem?_getD, List.getElem?_eq_none hlen]
    exact hrest.store 0
  next b rest hin =>
    have hdrop : input.drop m.reads = b :: rest := hunread.symm.trans hin
    have hb : input[m.reads]? = some b := by
      rw [← List.head?_drop, hdrop, List.head?_cons]
    have htail : input.drop (m.reads + 1) = rest := by
      rw [← List.tail_drop, hdrop, List.tail_cons]
    have hrest : Follows input { s with input := rest } { m with reads := m.reads + 1 } :=
      ⟨hf.cells, hf.pointer, hf.position, htail.symm, hf.output⟩
    rw [List.getD_eq_getElem?_getD, hb]
    exact hrest.store b

theorem Follows.loopStart (hf : Follows input s m)
    (hs : commandAt code s.position = some .loopStart) :
    Follows input (State.exec code .loopStart s) (m.exec code input .loopStart) := by
  rw [State.exec_loopStart]
  unfold JumpMachine.exec
  simp only [hf.cell_eq_zero_iff, hf.position]
  split
  next =>
    have htable : ∀ j, (jumpTable code)[s.position]?.join = some j ↔
        Partners code s.position j := by
      intro j
      rw [jumpTable_eq_some_iff, or_iff_left_iff_imp]
      intro hp
      simpa [hs] using hp.stop
    split
    next j hj =>
      rw [((htable j).mp hj).pastLoop_eq]
      exact hf.goto _ _
    next hnone =>
      have hend := pastLoop_of_no_partner hs fun j hp => by simpa [hnone] using (htable j).mpr hp
      rw [hend]
      exact hf.goto _ _
  next => exact hf.next _

theorem Follows.loopEnd (hf : Follows input s m) (hn : s.loops = openAt code s.position)
    (he : commandAt code s.position = some .loopEnd) :
    Follows input (State.exec code .loopEnd s) (m.exec code input .loopEnd) := by
  have htable : ∀ i, (jumpTable code)[s.position]?.join = some i ↔ Partners code i s.position := by
    intro i
    rw [jumpTable_eq_some_iff, or_iff_right_iff_imp]
    intro hp
    simpa [he] using hp.start
  unfold JumpMachine.exec
  simp only [hf.cell_eq_zero_iff, hf.position]
  cases hl : s.loops with
  | nil =>
    have hnone : (jumpTable code)[s.position]?.join = none := by
      refine Option.eq_none_iff_forall_ne_some.mpr fun i hi => ?_
      have hopen := ((htable i).mp hi).openAt_eq
      rw [← hn, hl] at hopen
      cases hopen
    rw [State.exec_loopEnd_nil code hl, hnone]
    exact hf.next _
  | cons start outer =>
    have hpartner : Partners code start s.position := partners_of_openAt (hn.symm.trans hl) he
    rw [State.exec_loopEnd_cons code hl, (htable start).mpr hpartner]
    dsimp only
    split
    next => exact hf.next _
    next => exact hf.goto _ _

theorem Follows.exec (hf : Follows input s m) {c : Command}
    (hc : commandAt code s.position = some c) (hn : s.loops = openAt code s.position) :
    Follows input (State.exec code c s) (m.exec code input c) := by
  have hcell := hf.cell
  cases c with
  | right =>
    have hp : (m.pointer + 1) % cellCount = (s.pointer + 1).val := by
      rw [hf.pointer, Fin.val_add]
      rfl
    exact hf.move hp
  | left =>
    have hp : (m.pointer + (cellCount - 1)) % cellCount = (s.pointer - 1).val := by
      have hone : (1 : Fin cellCount).val = 1 := rfl
      rw [hf.pointer, Fin.val_sub, Nat.add_comm, hone]
    exact hf.move hp
  | increment =>
    have hv : (m.cell + 1) % 256 = (s.cell + 1).toNat := by
      rw [hcell, UInt8.toNat_add]
      rfl
    change Follows input (s.setCell (s.cell + 1)) (m.store ((m.cell + 1) % 256)).next
    rw [hv]
    exact hf.store _
  | decrement =>
    have hv : (m.cell + 255) % 256 = (s.cell - 1).toNat := by
      rw [hcell, UInt8.toNat_sub, Nat.add_comm]
      rfl
    change Follows input (s.setCell (s.cell - 1)) (m.store ((m.cell + 255) % 256)).next
    rw [hv]
    exact hf.store _
  | write =>
    refine ⟨hf.cells, hf.pointer, congrArg (· + 1) hf.position, hf.unread, ?_⟩
    change m.output ++ String.utf8EncodeChar (Char.ofNat m.cell) = _
    rw [hf.output, hcell]
    simp [State.exec, State.output]
  | read => exact hf.read
  | loopStart => exact hf.loopStart hc
  | loopEnd => exact hf.loopEnd hn hc

theorem Follows.step (hf : Follows input s m) (hn : s.Nested code) (h : s.position < code.size) :
    Follows input (State.execByte code code[s.position] s) (m.step code input) := by
  rw [State.execByte_at h, JumpMachine.step, hf.position]
  cases hc : commandAt code s.position with
  | none => exact hf.next s.loops
  | some c => exact hf.exec hc (hn h)

theorem Follows.run (hf : Follows input s m) (hn : s.Nested code) :
    Follows input (State.run code n s) (m.run code input n) := by
  induction n generalizing s m with
  | zero => exact hf
  | succ n ih =>
    rw [State.run, JumpMachine.run, hf.position]
    split
    next h => exact ih (hf.step hn h) (State.nested_execByte hn h)
    next => exact hf

theorem follows_start (input : Bytes) : Follows input (State.start input) {} := by
  refine ⟨fun i hi => ?_, rfl, rfl, rfl, rfl⟩
  change 0 = ((Vector.replicate cellCount (0 : UInt8))[i]).toNat
  rw [Vector.getElem_replicate]
  rfl

theorem execute_eq (code input : Bytes) (stop : Cancellation) :
    Tape.execute code input stop = execute code input stop := by
  have hf : Follows input (State.run code.toArray stop.after (State.start input))
      (run code.toArray input stop.after {}) :=
    (follows_start input).run (State.nested_start code.toArray input)
  unfold Tape.execute JumpMachine.execute
  dsimp only
  rw [hf.output, hf.position]
  congr 1
  by_cases hend : (State.run code.toArray stop.after (State.start input)).position < code.length
  · simp [State.isDone, hend]
  · simp [State.isDone, hend, Nat.le_of_not_lt hend]

end JumpMachine

/-- At every moment of every run before its end, the loops under way are the starts whose partners,
if they have any, are still to come. So a program writes, and is stopped, as it would be by a table
of the partners. -/
theorem loops_match_brackets (code input : Bytes) (stop : Cancellation) :
    (∀ n, let s := State.run code.toArray n (State.start input)
      s.position < code.length →
        s.loops.reverse.Pairwise (· < ·) ∧
        (∀ i, i ∈ s.loops ↔ i < s.position ∧ code[i]? = some Command.loopStart.byte ∧
          ∀ j, Partners code.toArray i j → s.position ≤ j) ∧
        s.pointer.val < 30000) ∧
    (∀ i j, (jumpTable code.toArray)[i]?.join = some j ↔
      Partners code.toArray i j ∨ Partners code.toArray j i) ∧
    execute code input stop = JumpMachine.execute code input stop := by
  refine ⟨?_, fun i j => jumpTable_eq_some_iff, JumpMachine.execute_eq code input stop⟩
  intro n s hend
  have hnested : s.Nested code.toArray := State.nested_run (State.nested_start _ input)
  have hloops := hnested (by simpa using hend)
  rw [hloops]
  refine ⟨List.pairwise_reverse.mpr (openAt_sorted code.toArray _).1, fun i => ?_, Fin.isLt _⟩
  rw [mem_openAt_iff, commandAt_eq_some_iff, List.getElem?_toArray]

end Codel.Tape
