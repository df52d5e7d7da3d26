import Codel.Proofs.Machine.Input
import Codel.Proofs.Machine.Writes
import Codel.Proofs.Text.Numeral

namespace Codel

theorem takeLine_append_of_not_mem {line : Bytes} (h : 10 ∉ line) (rest : Bytes) :
    takeLine (line ++ rest) = (line ++ (takeLine rest).1, (takeLine rest).2) := by
  induction line with
  | nil => rfl
  | cons b line ih =>
    obtain ⟨hb, hline⟩ := not_or.mp (mt List.mem_cons.mpr h)
    have hne : b ≠ 10 := fun heq => hb heq.symm
    rw [List.cons_append, takeLine, if_neg hne, ih hline]
    rfl

theorem takeLine_of_newline {line : Bytes} (h : 10 ∉ line) (rest : Bytes) :
    takeLine (line ++ 10 :: rest) = (line ++ [10], rest) :=
  takeLine_append_of_not_mem h (10 :: rest)

theorem takeLine_of_no_newline {line : Bytes} (h : 10 ∉ line) : takeLine line = (line, []) := by
  have hline := takeLine_append_of_not_mem h []
  rwa [takeLine, List.append_nil] at hline

/-- A line goes up to the first newline, or it is all that is left. -/
theorem takeLine_cases (bs : Bytes) :
    (∃ line, 10 ∉ line ∧ (takeLine bs).1 = line ++ [10]) ∨
      10 ∉ (takeLine bs).1 ∧ (takeLine bs).2 = [] := by
  by_cases h : 10 ∈ bs
  · obtain ⟨line, rest, rfl, hline⟩ := List.eq_append_cons_of_mem h
    exact Or.inl ⟨line, hline, by rw [takeLine_of_newline hline]⟩
  · rw [takeLine_of_no_newline h]
    exact Or.inr ⟨h, rfl⟩

theorem newline_not_mem_number (v : Int64) : 10 ∉ Form.number.bytes v :=
  (numeral_decimal v.toInt).newline_not_mem

theorem lineNumber?_number (v : Int64) : lineNumber? (Form.number.bytes v) = some v := by
  apply lineNumber?_eq_some_iff.mpr
  refine ⟨[], decimal v.toInt, [], ?_, by simp, by simp, numeral_decimal v.toInt⟩
  exact (List.append_nil _).symm

theorem lineNumber?_number_newline (v : Int64) :
    lineNumber? (Form.number.bytes v ++ [10]) = some v := by
  apply lineNumber?_eq_some_iff.mpr
  exact ⟨[], decimal v.toInt, ['\n'], rfl, by simp, by simp; decide, numeral_decimal v.toInt⟩

namespace Machine

variable {m : Machine} {v : Int64}

def endLine (m : Machine) : Machine := { m with output := m.output.write [10] }

/-- Writes numbers with line ends in between. -/
def writeNumbers : List Int64 → Machine → Machine
  | [], m => m
  | [v], m => (m.write .number v).1
  | v :: w :: vs, m => writeNumbers (w :: vs) (m.write .number v).1.endLine

theorem bytes_write_number (h : m.output.Accepting) (v : Int64) :
    (m.write .number v).1.output.bytes = m.output.bytes ++ Form.number.bytes v :=
  Sink.bytes_write_of_takes (h.takes _)

theorem bytes_writeNumbers (vs : List Int64) (h : m.output.Accepting) :
    (writeNumbers vs m).output.bytes =
      m.output.bytes ++ [10].intercalate (vs.map Form.number.bytes) := by
  induction vs generalizing m with
  | nil => simp [writeNumbers]
  | cons v vs ih =>
    cases vs with
    | nil =>
      rw [List.map_cons, List.map_nil, List.intercalate_singleton]
      exact bytes_write_number h v
    | cons w vs =>
      have hwritten : (m.write .number v).1.output.Accepting := h.write _
      have hnext : (m.write .number v).1.endLine.output.Accepting := hwritten.write [10]
      have hline : (m.write .number v).1.endLine.output.bytes =
          m.output.bytes ++ Form.number.bytes v ++ [10] := by
        rw [← bytes_write_number h v]
        exact Sink.bytes_write_of_takes (hwritten.takes [10])
      rw [writeNumbers, ih hnext, hline, List.map_cons, List.map_cons, List.map_cons,
        List.intercalate_cons_cons]
      simp only [List.append_assoc]

theorem draw_number (m : Machine) : (m.draw .number).1 = lineNumber? (takeLine m.input).1 ∧
    (m.draw .number).2.input = (takeLine m.input).2 := ⟨rfl, rfl⟩

theorem draws_replicate_succ (n : Nat) (m : Machine) (r : Reading) :
    m.draws (List.replicate (n + 1) r) = m.call r :: (m.draw r).2.draws (List.replicate n r) := rfl

theorem draw_of_line {rest : Bytes} (h : m.input = Form.number.bytes v ++ 10 :: rest) :
    (m.draw .number).1 = some v ∧ (m.draw .number).2.input = rest := by
  obtain ⟨hanswer, hinput⟩ := m.draw_number
  rw [hanswer, hinput, h, takeLine_of_newline (newline_not_mem_number v)]
  exact ⟨lineNumber?_number_newline v, rfl⟩

theorem draw_of_last_line (h : m.input = Form.number.bytes v) :
    (m.draw .number).1 = some v ∧ (m.draw .number).2.input = [] := by
  obtain ⟨hanswer, hinput⟩ := m.draw_number
  rw [hanswer, hinput, h, takeLine_of_no_newline (newline_not_mem_number v)]
  exact ⟨lineNumber?_number v, rfl⟩

theorem answers_cons {n : Nat} {answers : List (Option Int64)} (hfirst : (m.draw .number).1 = some v)
    (hrest : ((m.draw .number).2.draws (List.replicate n .number)).map Draw.answer = answers) :
    (m.draws (List.replicate (n + 1) .number)).map Draw.answer = some v :: answers := by
  rw [draws_replicate_succ, List.map_cons, hrest]
  exact congrArg (· :: answers) hfirst

/-- Neither at the end of the input nor on an empty line there is a number. -/
theorem answers_of_end {tail : Bytes} (htail : tail = [] ∨ tail = [10]) (h : m.input = tail) :
    (m.draws (List.replicate 1 .number)).map Draw.answer = [none] := by
  have hanswer : (m.draw .number).1 = none := by
    rw [m.draw_number.1, h]
    rcases htail with rfl | rfl
    · rfl
    · rfl
  exact congrArg (fun r => [r]) hanswer

theorem answers_of_numbers (vs : List Int64) {tail : Bytes} (htail : tail = [] ∨ tail = [10])
    (h : m.input = [10].intercalate (vs.map Form.number.bytes) ++ tail) :
    (m.draws (List.replicate (vs.length + 1) .number)).map Draw.answer = vs.map some ++ [none] := by
  induction vs generalizing m with
  | nil => exact answers_of_end htail h
  | cons v vs ih =>
    cases vs with
    | nil =>
      rw [List.map_cons, List.map_nil, List.intercalate_singleton] at h
      rcases htail with rfl | rfl
      · obtain ⟨hanswer, hinput⟩ := draw_of_last_line (h.trans (List.append_nil _))
        exact answers_cons hanswer (answers_of_end (Or.inl rfl) hinput)
      · obtain ⟨hanswer, hinput⟩ := draw_of_line h
        exact answers_cons hanswer (answers_of_end (Or.inl rfl) hinput)
    | cons w vs =>
      rw [List.map_cons, List.map_cons, List.intercalate_cons_cons, List.append_assoc,
        List.append_assoc] at h
      obtain ⟨hanswer, hinput⟩ := draw_of_line h
      exact answers_cons hanswer (ih hinput)

/-- Reading a number takes a line and gives the integer that stands on it between white space, if
64 bits can hold it. Numbers that were written, with line ends in between and with or without one
after the last, are read back. -/
theorem numbers_are_read_by_line :
    (∀ m : Machine,
      (m.call .number).taken ++ (m.call .number).after = m.input ∧
      ((∃ line, 10 ∉ line ∧ (m.call .number).taken = line ++ [10]) ∨
        10 ∉ (m.call .number).taken ∧ (m.call .number).after = []) ∧
      ∀ z : Int, (m.call .number).answer.map Int64.toInt = some z ↔
        NumberLine (m.call .number).taken z ∧ -2 ^ 63 ≤ z ∧ z < 2 ^ 63) ∧
    ∀ (vs : List Int64) (m : Machine),
      m.input = (writeNumbers vs {}).output.bytes ∨
        m.input = (writeNumbers vs {}).output.bytes ++ [10] →
      (m.draws (List.replicate (vs.length + 1) .number)).map Draw.answer =
        vs.map some ++ [none] := by
  constructor
  · intro m
    have htaken : (m.call .number).taken = (takeLine m.input).1 :=
      Draw.taken_eq (takeLine_append m.input)
    refine ⟨m.call_number_orderly.front, ?_, ?_⟩
    · rw [htaken]
      exact takeLine_cases m.input
    · intro z
      rw [htaken]
      exact toInt_lineNumber?_iff
  · intro vs m h
    have hbytes : (writeNumbers vs {}).output.bytes =
        [10].intercalate (vs.map Form.number.bytes) := bytes_writeNumbers vs Sink.accepting_default
    rw [hbytes] at h
    rcases h with h | h
    · exact answers_of_numbers vs (Or.inl rfl) (h.trans (List.append_nil _).symm)
    · exact answers_of_numbers vs (Or.inr rfl) h

/-- Signs, leading zeros and white space of more than one byte; then one past the range, a sign alone
and an empty line. -/
example : ((({ input := Bytes.ofChars ['\u00A0', '+', '0', '7', '\r', '\n'] ++
    Form.number.bytes Int64.minValue ++ [10] ++ Bytes.ofChars (decimal (2 ^ 63)) ++ [10, 45, 10, 10] }
      : Machine).draws (List.replicate 5 .number)).map Draw.answer) =
    [some 7, some Int64.minValue, none, none, none] := by
  decide +kernel

end Machine

end Codel
