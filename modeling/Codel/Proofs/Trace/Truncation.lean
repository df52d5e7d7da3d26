import Codel.Proofs.Trace.Pieces
import Codel.Proofs.Trace.RoundTrip

namespace Codel.Trace

/-- The pieces of a record with the given fields: its tag, then the name and the value of each. -/
def recordPieces (fields : List (String × List Bytes)) : List Bytes :=
  [UInt8.ofNat (0x80 + fields.length)] ::
    fields.flatMap fun f => textPieces (Bytes.ofString f.1) ++ f.2

def Header.pieces (h : Header) : List Bytes :=
  recordPieces [("run", textPieces h.run), ("program", textPieces h.program),
    ("width", intPieces h.width), ("height", intPieces h.height),
    ("codel_size", intPieces h.codelSize)]

def Step.pieces (s : Step) : List Bytes :=
  recordPieces [("step", intPieces s.step), ("x", intPieces s.x), ("y", intPieces s.y),
    ("color", textPieces s.colour), ("opcode", textPieces s.op),
    ("block_size", intPieces s.blockSize), ("dp", textPieces s.dp), ("cc", textPieces s.cc),
    ("stack", stackPieces s.stack)]

section Flattening

theorem flatten_cutTag (bs : Bytes) : (cutTag bs).flatten = bs := by
  cases bs with
  | nil => rfl
  | cons tag rest => simp [cutTag]

theorem flatten_leadPieces (front body : Bytes) :
    (leadPieces (front ++ body) body.length).flatten = front := by
  rw [leadPieces, flatten_cutTag, List.length_append, Nat.add_sub_cancel, List.take_left]

theorem flatten_intPieces (v : Int64) : (intPieces v).flatten = encodeInt v :=
  flatten_cutTag (encodeInt v)

theorem flatten_textPieces (bs : Bytes) : (textPieces bs).flatten = encodeText bs := by
  rw [textPieces, List.flatten_append, List.flatten_singleton]
  exact congrArg (· ++ bs) (flatten_leadPieces _ bs)

theorem flatten_flatMap_pieces {α : Type} {pieces : α → List Bytes} {encode : α → Bytes}
    (h : ∀ a, (pieces a).flatten = encode a) (as : List α) :
    (as.flatMap pieces).flatten = as.flatMap encode := by
  induction as with
  | nil => rfl
  | cons a as ih => rw [List.flatMap_cons, List.flatMap_cons, List.flatten_append, h, ih]

theorem flatten_stackPieces (stack : Option (List Int64)) :
    (stackPieces stack).flatten = encodeStack stack := by
  cases stack with
  | none => rfl
  | some vs =>
    rw [stackPieces, List.flatten_append, flatten_flatMap_pieces flatten_intPieces]
    exact congrArg (· ++ vs.flatMap encodeInt) (flatten_leadPieces _ _)

theorem Header.flatten_pieces (h : Header) : h.pieces.flatten = h.encode := by
  delta Header.encode
  simp only [Header.pieces, recordPieces, List.flatMap_cons, List.flatMap_nil, List.flatten_cons,
    List.flatten_append, flatten_textPieces, flatten_intPieces, encodeKey, List.append_assoc,
    List.append_nil]
  rfl

theorem Step.flatten_pieces (s : Step) : s.pieces.flatten = s.encode := by
  delta Step.encode
  simp only [Step.pieces, recordPieces, List.flatMap_cons, List.flatMap_nil, List.flatten_cons,
    List.flatten_append, flatten_textPieces, flatten_intPieces, flatten_stackPieces, encodeKey,
    List.append_assoc, List.append_nil]
  rfl

end Flattening

section Records

theorem Header.takes_pieces {h : Header} (hf : h.Fits) : Takes readHeader h.pieces h := by
  have hspelt : Spelt headerLayout.fields {} _ h :=
    .field (by decide) (takes_text hf.run) <|
    .field (by decide) (takes_text hf.program) <|
    .field (by decide) (takes_int h.width) <|
    .field (by decide) (takes_int h.height) <|
    .field (by decide) (takes_int h.codelSize) (.nil _)
  have hrecord := hspelt.takes_record (by decide) (by decide)
  simp only [Header.pieces, recordPieces, List.flatMap_cons, List.flatMap_nil, List.append_assoc]
  exact hrecord

theorem Step.takes_pieces {s : Step} (hf : s.Fits) : Takes readStep s.pieces s := by
  have hspelt : Spelt stepLayout.fields {} _ s :=
    .field (by decide) (takes_int s.step) <|
    .field (by decide) (takes_int s.x) <|
    .field (by decide) (takes_int s.y) <|
    .field (by decide) (takes_text hf.colour) <|
    .field (by decide) (takes_text hf.op) <|
    .field (by decide) (takes_int s.blockSize) <|
    .field (by decide) (takes_text hf.dp) <|
    .field (by decide) (takes_text hf.cc) <|
    .field (by decide) (takes_stack hf.stack) (.nil _)
  have hrecord := hspelt.takes_record (by decide) (by decide)
  simp only [Step.pieces, recordPieces, List.flatMap_cons, List.flatMap_nil, List.append_assoc]
  exact hrecord

theorem readHeader_cut {h : Header} (hf : h.Fits) {front back : Bytes}
    (heq : h.encode = front ++ back) (hback : back ≠ []) :
    readHeader front = .error (cutFault h.pieces front) :=
  (Header.takes_pieces hf).short front back (h.flatten_pieces.trans heq) hback

theorem readStep_cut {s : Step} (hf : s.Fits) {front back : Bytes}
    (heq : s.encode = front ++ back) (hback : back ≠ []) :
    readStep front = .error (cutFault s.pieces front) :=
  (Step.takes_pieces hf).short front back (s.flatten_pieces.trans heq) hback

end Records

section Steps

variable {before : List Step} {s : Step} {front back : Bytes}

theorem readSteps_append (hf : ∀ s ∈ before, s.Fits) (fuel : Nat) (sofar : List Step)
    (rest : Bytes) :
    readSteps (before.length + fuel) sofar (before.flatMap Step.encode ++ rest) =
      readSteps fuel (before.reverse ++ sofar) rest := by
  induction before generalizing sofar with
  | nil => simp
  | cons s before ih =>
    obtain ⟨hs, hbefore⟩ := List.forall_mem_cons.mp hf
    rw [List.length_cons, Nat.succ_add, List.flatMap_cons, List.append_assoc, readSteps,
      Step.reads_encode hs]
    dsimp only
    rw [ih hbefore, List.reverse_cons, List.append_assoc, List.singleton_append]

/-- Steps of which the last is cut short: it is dropped or met with a failure, depending on where it
is cut. -/
theorem readSteps_cut (hbefore : ∀ s ∈ before, s.Fits) (hs : s.Fits)
    (heq : s.encode = front ++ back) (hback : back ≠ []) {fuel : Nat} (hfuel : before.length < fuel) :
    readSteps fuel [] (before.flatMap Step.encode ++ front) =
      if front ∈ joins s.pieces then .ok before else .error (.step (before.length + 1) .cut) := by
  obtain ⟨more, rfl⟩ := Nat.exists_eq_add_of_lt hfuel
  rw [Nat.add_assoc, readSteps_append hbefore, readSteps, readStep_cut hs heq hback, cutFault]
  by_cases hjoin : front ∈ joins s.pieces
  · simp [hjoin]
  · simp [hjoin]

/-- Records written one after the other are cut behind one of them or within one. -/
theorem flatMap_cut_cases {α : Type} {encode : α → Bytes} {as : List α} {b d : Bytes}
    (h : as.flatMap encode = b ++ d) :
    (∃ k, b = (as.take k).flatMap encode) ∨
      ∃ before a after front back, as = before ++ a :: after ∧
        b = before.flatMap encode ++ front ∧ encode a = front ++ back ∧ back ≠ [] := by
  induction as generalizing b with
  | nil => exact Or.inl ⟨0, (List.append_eq_nil_iff.mp h.symm).1⟩
  | cons a as ih =>
    rw [List.flatMap_cons] at h
    rcases List.append_eq_append_iff.mp h with ⟨rest, rfl, hrest⟩ | ⟨back, ha, -⟩
    · rcases ih hrest with ⟨k, rfl⟩ | ⟨before, a', after, front, back, rfl, rfl, ha', hback⟩
      · exact Or.inl ⟨k + 1, by rw [List.take_succ_cons, List.flatMap_cons]⟩
      · refine Or.inr ⟨a :: before, a', after, front, back, rfl, ?_, ha', hback⟩
        rw [List.flatMap_cons, List.append_assoc]
    · by_cases hback : back = []
      · refine Or.inl ⟨1, ?_⟩
        rw [hback, List.append_nil] at ha
        simp [ha]
      · exact Or.inr ⟨[], a, as, b, back, rfl, rfl, ha, hback⟩

end Steps

/-- The pieces of a whole trace. -/
def pieces (t : Trace) : List Bytes := t.header.pieces ++ t.steps.flatMap Step.pieces

section Whole

variable {h : Header} {before after : List Step} {s : Step} {b front back : Bytes}

theorem decode_cut_in_header (hf : h.Fits) (heq : h.encode = b ++ back) (hback : back ≠ []) :
    Trace.decode b = .error (.header (cutFault h.pieces b)) := by
  unfold Trace.decode
  rw [readHeader_cut hf heq hback]

theorem decode_cut_in_step (hf : h.Fits) (hbefore : ∀ s ∈ before, s.Fits) (hs : s.Fits)
    (heq : s.encode = front ++ back) (hback : back ≠ []) :
    Trace.decode (h.encode ++ (before.flatMap Step.encode ++ front)) =
      if front ∈ joins s.pieces then .ok ⟨h, before⟩
      else .error (.step (before.length + 1) .cut) := by
  have hfuel : before.length < (before.flatMap Step.encode ++ front).length + 1 := by
    have := length_le_length_flatMap_encode before
    rw [List.length_append]
    omega
  unfold Trace.decode
  rw [Header.reads_encode hf]
  dsimp only
  rw [readSteps_cut hbefore hs heq hback hfuel]
  split <;> rfl

/-- Whether a cut within a step falls between two pieces is up to that step alone. -/
theorem mem_joins_pieces_iff (heq : s.encode = front ++ back) (hback : back ≠ []) :
    h.encode ++ (before.flatMap Step.encode ++ front) ∈
        joins (pieces ⟨h, before ++ s :: after⟩) ↔ front ∈ joins s.pieces := by
  have hpieces : pieces ⟨h, before ++ s :: after⟩ =
      (h.pieces ++ before.flatMap Step.pieces) ++ (s.pieces ++ after.flatMap Step.pieces) := by
    simp only [pieces, List.flatMap_append, List.flatMap_cons, List.append_assoc]
  have hflatten : (h.pieces ++ before.flatMap Step.pieces).flatten =
      h.encode ++ before.flatMap Step.encode := by
    rw [List.flatten_append, h.flatten_pieces, flatten_flatMap_pieces Step.flatten_pieces]
  have hlt : front.length < s.pieces.flatten.length := by
    have hpos := List.length_pos_iff.mpr hback
    rw [s.flatten_pieces, heq, List.length_append]
    omega
  rw [hpieces, ← List.append_assoc h.encode, ← hflatten, append_mem_joins_iff,
    mem_joins_append_of_lt hlt]

end Whole

/-- A trace that is cut short within one of its records is refused just if the cut is in the header or
in the midst of a piece. Otherwise the complete steps before the cut are taken for the whole trace. -/
theorem truncated_fails_iff (t : Trace) (hheader : t.header.Fits) (hsteps : ∀ s ∈ t.steps, s.Fits)
    (b : Bytes) (hb : b <+: t.encode)
    (hends : ∀ k, b ≠ Trace.encode ⟨t.header, t.steps.take k⟩) :
    ((∃ e, Trace.decode b = .error e) ↔
      b.length < t.header.encode.length ∨ b ∉ joins t.pieces) ∧
    ∀ t', Trace.decode b = .ok t' → ∃ k < t.steps.length, t' = ⟨t.header, t.steps.take k⟩ := by
  obtain ⟨header, steps⟩ := t
  obtain ⟨d, hd⟩ := hb
  dsimp only at hheader hsteps hends ⊢
  have hsplit : b ++ d = header.encode ++ steps.flatMap Step.encode := hd
  rcases List.append_eq_append_iff.mp hsplit with ⟨rest, hrest, -⟩ | ⟨rest, rfl, hrest⟩
  · -- Not the whole header: it is no record of its own.
    have hne : rest ≠ [] := by
      rintro rfl
      apply hends 0
      rw [List.append_nil] at hrest
      simp [Trace.encode, hrest]
    have hlt : b.length < header.encode.length := by
      have hpos := List.length_pos_iff.mpr hne
      rw [hrest, List.length_append]
      omega
    rw [decode_cut_in_header hheader hrest hne]
    exact ⟨⟨fun _ => Or.inl hlt, fun _ => ⟨_, rfl⟩⟩, by simp⟩
  · rcases flatMap_cut_cases hrest with
      ⟨k, rfl⟩ | ⟨before, s, after, front, back, rfl, rfl, heq, hback⟩
    · exact absurd rfl (hends k)
    · have hbefore : ∀ s ∈ before, s.Fits := fun s hs => hsteps s (by simp [hs])
      have hs : s.Fits := hsteps s (by simp)
      have hge : ¬ (header.encode ++ (before.flatMap Step.encode ++ front)).length <
          header.encode.length := by
        rw [List.length_append]
        omega
      rw [decode_cut_in_step hheader hbefore hs heq hback, mem_joins_pieces_iff heq hback]
      by_cases hjoin : front ∈ joins s.pieces
      · simp only [hjoin, hge, ↓reduceIte, not_true_eq_false, or_self, reduceCtorEq, exists_false,
          Except.ok.injEq, true_and]
        rintro t' rfl
        refine ⟨before.length, ?_, ?_⟩
        · rw [List.length_append, List.length_cons]
          omega
        · rw [List.take_left]
      · simp [hjoin]

/-- One step, cut in the midst of the name of its first field. -/
theorem truncated_fails_iff_in_name : ∃ (t : Trace) (b : Bytes),
    t.header.Fits ∧ (∀ s ∈ t.steps, s.Fits) ∧ b <+: t.encode ∧
    (∀ k, b ≠ Trace.encode ⟨t.header, t.steps.take k⟩) ∧
    t.header.encode.length < b.length ∧ b ∉ joins t.pieces ∧ ∃ e, Trace.decode b = .error e := by
  let t : Trace := ⟨{}, [{}]⟩
  let b : Bytes := t.header.encode ++ [0x89, 0xa4, 0x73]
  have hheader : t.header.Fits := ⟨by decide, by decide⟩
  have hsteps : ∀ s ∈ t.steps, s.Fits := by
    simp only [t, List.mem_singleton, forall_eq]
    exact ⟨by decide, by decide, by decide, by decide, by simp⟩
  have hb : b <+: t.encode := by decide +kernel
  have hends : ∀ k, b ≠ Trace.encode ⟨t.header, t.steps.take k⟩ := by
    intro k
    cases k with
    | zero => decide +kernel
    | succ k => simp only [t, List.take_succ_cons, List.take_nil]; decide +kernel
  have hjoin : b ∉ joins t.pieces := by decide +kernel
  exact ⟨t, b, hheader, hsteps, hb, hends, by decide +kernel, hjoin,
    (truncated_fails_iff t hheader hsteps b hb hends).1.mpr (Or.inr hjoin)⟩

/-- A trace of one step that is cut right after the tag of the step is read as a trace of none. -/
theorem truncated_trace_accepted : ∃ (t : Trace) (b : Bytes),
    t.header.Fits ∧ (∀ s ∈ t.steps, s.Fits) ∧ b <+: t.encode ∧
    (∀ k, b ≠ Trace.encode ⟨t.header, t.steps.take k⟩) ∧
    Trace.decode b = .ok ⟨t.header, []⟩ := by
  refine ⟨⟨{}, [{}]⟩, Header.encode {} ++ [0x89], ⟨by decide, by decide⟩, ?_, by decide +kernel, ?_,
    by decide +kernel⟩
  · simp only [List.mem_singleton, forall_eq]
    exact ⟨by decide, by decide, by decide, by decide, by simp⟩
  · intro k
    cases k with
    | zero => decide +kernel
    | succ k => simp only [List.take_succ_cons, List.take_nil]; decide +kernel

end Codel.Trace
