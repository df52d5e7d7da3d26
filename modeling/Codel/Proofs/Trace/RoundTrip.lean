import Codel.Proofs.Trace.Reading

namespace Codel.Trace

/-- Whose texts have lengths that can be written. -/
structure Header.Fits (h : Header) : Prop where
  run : h.run.length < 2 ^ 32
  program : h.program.length < 2 ^ 32

/-- Whose texts and stack have lengths that can be written. -/
structure Step.Fits (s : Step) : Prop where
  colour : s.colour.length < 2 ^ 32
  op : s.op.length < 2 ^ 32
  dp : s.dp.length < 2 ^ 32
  cc : s.cc.length < 2 ^ 32
  stack : ∀ vs, s.stack = some vs → vs.length < 2 ^ 32

theorem Header.reads_encode {h : Header} (hf : h.Fits) : Reads readHeader h.encode h := by
  have hspells : Spells headerLayout.fields {} _ h :=
    .field (by decide) (reads_text hf.run) <|
    .field (by decide) (reads_text hf.program) <|
    .field (by decide) (reads_int h.width) <|
    .field (by decide) (reads_int h.height) <|
    .field (by decide) (reads_int h.codelSize) (.nil _)
  have hrecord := hspells.reads_record (by decide) (by decide)
  rw [List.append_nil] at hrecord
  delta Header.encode
  simp only [List.append_assoc, List.cons_append]
  exact hrecord

theorem Step.reads_encode {s : Step} (hf : s.Fits) : Reads readStep s.encode s := by
  have hspells : Spells stepLayout.fields {} _ s :=
    .field (by decide) (reads_int s.step) <|
    .field (by decide) (reads_int s.x) <|
    .field (by decide) (reads_int s.y) <|
    .field (by decide) (reads_text hf.colour) <|
    .field (by decide) (reads_text hf.op) <|
    .field (by decide) (reads_int s.blockSize) <|
    .field (by decide) (reads_text hf.dp) <|
    .field (by decide) (reads_text hf.cc) <|
    .field (by decide) (reads_stack hf.stack) (.nil _)
  have hrecord := hspells.reads_record (by decide) (by decide)
  rw [List.append_nil] at hrecord
  -- Not `unfold`: the equation of so long a sum takes seconds to derive.
  delta Step.encode
  simp only [List.append_assoc, List.cons_append]
  exact hrecord

theorem Step.encode_ne_nil (s : Step) : s.encode ≠ [] := by
  delta Step.encode
  simp only [List.cons_append]
  exact List.cons_ne_nil _ _

theorem length_le_length_flatMap_encode (steps : List Step) :
    steps.length ≤ (steps.flatMap Step.encode).length := by
  induction steps with
  | nil => exact Nat.le_refl 0
  | cons s steps ih =>
    have hpos := List.length_pos_iff.mpr s.encode_ne_nil
    simp only [List.flatMap_cons, List.length_append, List.length_cons]
    omega

theorem readSteps_flatMap_encode {steps : List Step} (hf : ∀ s ∈ steps, s.Fits)
    (sofar : List Step) {fuel : Nat} (hfuel : steps.length < fuel) :
    readSteps fuel sofar (steps.flatMap Step.encode) = .ok (sofar.reverse ++ steps) := by
  induction steps generalizing sofar fuel with
  | nil =>
    obtain ⟨fuel, rfl⟩ := Nat.exists_eq_add_one_of_ne_zero (Nat.ne_zero_of_lt hfuel)
    have hend : readStep [] = .error .ended := rfl
    rw [List.flatMap_nil, readSteps, hend, List.append_nil]
  | cons s steps ih =>
    obtain ⟨fuel, rfl⟩ := Nat.exists_eq_add_one_of_ne_zero (Nat.ne_zero_of_lt hfuel)
    obtain ⟨hs, hsteps⟩ := List.forall_mem_cons.mp hf
    rw [List.flatMap_cons, readSteps, Step.reads_encode hs]
    dsimp only
    rw [ih hsteps (s :: sofar) (Nat.lt_of_succ_lt_succ hfuel), List.reverse_cons,
      List.append_assoc, List.singleton_append]

theorem decode_encode (t : Trace) (hheader : t.header.Fits) (hsteps : ∀ s ∈ t.steps, s.Fits) :
    Trace.decode t.encode = .ok t := by
  -- No step is written as nothing, so there is fuel for each of them in the bytes.
  have hfuel := Nat.lt_succ_of_le (length_le_length_flatMap_encode t.steps)
  unfold Trace.decode Trace.encode
  rw [Header.reads_encode hheader]
  dsimp only
  rw [readSteps_flatMap_encode hsteps [] hfuel]
  rfl

/-- Texts of several lengths, integers at the edges of their forms, and stacks that are missing, empty
and long. -/
theorem decode_encode_edges : ∃ t : Trace,
    t.steps.map Step.stack = [none, some [], some (List.replicate 16 Int64.minValue)] ∧
    t.header.Fits ∧ (∀ s ∈ t.steps, s.Fits) ∧ Trace.decode t.encode = .ok t := by
  have hheader : Header.Fits ⟨List.replicate 31 0, List.replicate 32 0xff, 127, 128, -1⟩ :=
    ⟨by decide, by decide⟩
  have hsteps : ∀ s ∈ ([⟨255, 256, 65536, List.replicate 33 7, [], 4294967296, [0xc1], [0x80], none⟩,
      ⟨-32, -33, -129, [], [], -32769, [], [], some []⟩,
      ⟨Int64.minValue, Int64.maxValue, 0, [], [], -2147483649, [], [],
        some (List.replicate 16 Int64.minValue)⟩] : List Step), s.Fits := by
    simp only [List.forall_mem_cons, List.not_mem_nil, false_implies, implies_true, and_true]
    refine ⟨⟨by decide, by decide, by decide, by decide, ?_⟩,
      ⟨by decide, by decide, by decide, by decide, ?_⟩,
      ⟨by decide, by decide, by decide, by decide, ?_⟩⟩
    · rintro _ ⟨⟩
    · rintro _ ⟨⟩
      decide
    · rintro _ ⟨⟩
      decide
  exact ⟨⟨_, _⟩, rfl, hheader, hsteps, decode_encode ⟨_, _⟩ hheader hsteps⟩

end Codel.Trace
