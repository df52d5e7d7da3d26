import Codel.Proofs.Machine.Executor

namespace Codel

namespace Sink

variable {k k' : Sink}

/-- A sink that takes every write. -/
def Accepting (k : Sink) : Prop := ∀ t bs, k.admits t bs = true

theorem Accepting.write (h : k.Accepting) (bs : Bytes) : (k.write bs).Accepting := h

theorem Accepting.takes (h : k.Accepting) (bs : Bytes) : k.takes bs = true := h k.tally bs

theorem Accepting.taken_write (h : k.Accepting) (bs : Bytes) :
    (k.write bs).taken = bs :: k.taken := if_pos (h.takes bs)

theorem taken_suffix_write (k : Sink) (bs : Bytes) : k.taken <:+ (k.write bs).taken := by
  unfold write
  dsimp only
  split
  · exact List.suffix_cons bs k.taken
  · exact List.suffix_refl k.taken

theorem bytes_prefix (h : k.taken <:+ k'.taken) : k.bytes <+: k'.bytes := by
  obtain ⟨later, heq⟩ := h
  refine ⟨later.reverse.flatten, ?_⟩
  unfold bytes
  rw [← heq, List.reverse_append, List.flatten_append]

end Sink

namespace Executor

theorem emit_output (op : OpCode) (m : Machine) :
    (emit op m).1.output = m.output ∨ ∃ bs, (emit op m).1.output = m.output.write bs := by
  unfold emit
  split
  next => exact Or.inl rfl
  next v rest _ =>
    dsimp only
    split
    · exact Or.inr ⟨_, rfl⟩
    · split
      · exact Or.inr ⟨_, rfl⟩
      · exact Or.inl rfl

theorem run_output (e : Executor) (op : OpCode) (operand : Nat) (m : Machine) :
    (e.run op operand m).1.output = m.output ∨
      ∃ bs, (e.run op operand m).1.output = m.output.write bs := by
  rcases (run_effect e op operand m).output with h | rfl
  · exact Or.inl h
  · exact emit_output op m

end Executor

theorem InstructionSet.taken_suffix_execute (set : InstructionSet) (i : Instruction) (m : Machine) :
    m.output.taken <:+ (set.execute i m).1.output.taken := by
  unfold execute
  split
  · exact List.suffix_refl _
  · rcases Executor.run_output (set.executor i.op) i.op i.operand m with h | ⟨bs, h⟩
    · rw [h]
    · rw [h]
      exact Sink.taken_suffix_write m.output bs

end Codel
