import Codel.Proofs.Run.Logbook
import Codel.Proofs.Text.Scalar
import Codel.Run.Report
import Mathlib.Data.Fintype.Prod

namespace Codel

namespace Bytes

theorem toText_ofString (s : String) : (ofString s).toText = s := by
  have hpieces : pieces (ofString s) = s.toList.map .char := pieces_ofChars s.toList
  unfold toText
  rw [hpieces, List.map_map]
  change String.ofList (s.toList.map id) = s
  rw [List.map_id, String.ofList_toList]

theorem ofString_injective : Function.Injective ofString := by
  intro s t h
  rw [← toText_ofString s, h, toText_ofString]

end Bytes

theorem wordText_ofNat {n : Nat} (h : n < 2 ^ 63) : wordText (Int64.ofNat n) = decimalText n := by
  unfold wordText
  rw [Int64.toInt_ofNat_of_lt h]

section Notes

theorem intercalate_empty (ss : List String) : "".intercalate ss = String.join ss := by
  have hflatten : ∀ css : List (List Char), [].intercalate css = css.flatten := by
    intro css
    unfold List.intercalate
    induction css with
    | nil => rfl
    | cons cs css ih =>
      cases css with
      | nil => rfl
      | cons ds css =>
        rw [List.intersperse_cons_cons, List.flatten_cons, List.flatten_cons, List.nil_append, ih]
        rfl
  rw [← String.toList_inj, String.toList_intercalate, String.toList_join]
  exact hflatten _

theorem debugText_append (ms ns : List Note) :
    debugText (ms ++ ns) = debugText ms ++ debugText ns := by
  unfold debugText
  rw [List.filterMap_append, intercalate_empty, intercalate_empty, intercalate_empty,
    String.join_append]

theorem debugText_flatMap {α : Type} (f : α → List Note) (xs : List α) :
    debugText (xs.flatMap f) = String.join (xs.map fun x => debugText (f x)) := by
  induction xs with
  | nil => rfl
  | cons x xs ih => rw [List.flatMap_cons, debugText_append, ih, List.map_cons, String.join_cons]

@[simp] theorem debugText_nil : debugText [] = "" := rfl

@[simp] theorem debugText_line (text : String) : debugText [.line text] = text := by
  unfold debugText
  exact String.intercalate_singleton

@[simp] theorem debugText_entry (e : Log.Entry) : debugText [.entry e] = "" := rfl

theorem debugText_endingNotes (s : Setup) (steps : Nat) (e : Ending) :
    debugText (s.endingNotes steps e) = "" := by
  cases e <;> rfl

end Notes

section Places

/-- The operation at a place of the table of hue and lightness changes. -/
def OpCode.ofPlace (v : Fin 6 × Fin 3) : OpCode := ofDelta v.1 v.2

theorem OpCode.label_ofPlace_injective : Function.Injective fun v => (ofPlace v).label := by
  have htable : ∀ v v', (ofPlace v).label = (ofPlace v').label → v = v' := by decide +kernel
  exact fun v v' => htable v v'

/-- An instruction whose operation stands in the table at the changes that it shows. -/
def Instruction.At (i : Instruction) (v : Fin 6 × Fin 3) : Prop :=
  i.op = OpCode.ofPlace v ∧ i.hue = v.1.val ∧ i.lightness = v.2.val

/-- A colour that is on neither cycle changes by nothing, so every instruction has its place. -/
theorem Instruction.exists_at (b c : Block) : ∃ v, (Instruction.between b c).At v := by
  unfold Instruction.between OpCode.between At
  cases h : b.colour.delta? c.colour with
  | none => exact ⟨(0, 0), rfl, rfl, rfl⟩
  | some v => exact ⟨v, rfl, rfl, rfl⟩

namespace Trace.Step

variable {r : Trace.Step} {v : Fin 6 × Fin 3}

/-- The operation at a place of the table has the name that a record gives. -/
def Names (r : Trace.Step) (v : Fin 6 × Fin 3) : Prop :=
  r.op = Bytes.ofString (OpCode.ofPlace v).label

instance (r : Trace.Step) (v : Fin 6 × Fin 3) : Decidable (r.Names v) :=
  inferInstanceAs (Decidable (r.op = Bytes.ofString (OpCode.ofPlace v).label))

theorem Names.unique {v' : Fin 6 × Fin 3} (h : r.Names v) (h' : r.Names v') : v' = v :=
  OpCode.label_ofPlace_injective (Bytes.ofString_injective (h'.symm.trans h))

def place? (r : Trace.Step) : Option (Fin 6 × Fin 3) :=
  (List.finRange 6 ×ˢ List.finRange 3).find? fun v => r.Names v

theorem Names.place? (h : r.Names v) : r.place? = some v := by
  have hmem : v ∈ List.finRange 6 ×ˢ List.finRange 3 :=
    List.pair_mem_product.mpr ⟨List.mem_finRange _, List.mem_finRange _⟩
  unfold Step.place?
  cases hfind : (List.finRange 6 ×ˢ List.finRange 3).find? fun v => decide (r.Names v) with
  | none =>
    have hnone := List.find?_eq_none.mp hfind v hmem
    exact absurd (decide_eq_true h) hnone
  | some v' =>
    have hv' := List.find?_some hfind
    rw [h.unique (of_decide_eq_true hv')]

/-- The line of the operation that a record names, none for the empty one. -/
def commandText (r : Trace.Step) : String :=
  if r.op = Bytes.ofString "none" then ""
  else
    match r.place? with
    | none => ""
    | some (hue, lightness) =>
      "  Command: " ++ r.op.toText ++ " (blockSize: " ++ wordText r.blockSize ++ ", hue: " ++
        decimalText hue.val ++ ", light: " ++ decimalText lightness.val ++ ")\n"

/-- The line of the state that a record shows, the stack from the top down. -/
def stateText (r : Trace.Step) : String :=
  "Step " ++ wordText r.step ++ ": Pos(" ++ wordText r.x ++ "," ++ wordText r.y ++ ") Color:" ++
    r.colour.toText ++ " Stack:[" ++
    ",".intercalate ((r.stack.getD []).reverse.map wordText) ++ "]\n"

def debugText (r : Trace.Step) : String := r.commandText ++ r.stateText

end Trace.Step

end Places

namespace Transition

variable {t : Transition} {v : Fin 6 × Fin 3}

/-- A transition that its record shows without loss: its counts fit 64 bits and its instruction
stands in the table. -/
structure Recordable (t : Transition) : Prop where
  step : t.step < 2 ^ 63
  operand : t.instruction.operand < 2 ^ 63
  place : ∃ v, t.instruction.At v

theorem record_names (h : t.instruction.At v) : t.record.Names v := by
  unfold Trace.Step.Names
  rw [record_op, h.1]

theorem record_op_eq_none_iff (h : t.instruction.At v) :
    t.record.op = Bytes.ofString "none" ↔ t.instruction.op = OpCode.none := by
  have hnone : t.record.op = Bytes.ofString "none" ↔ t.record.Names (0, 0) := Iff.rfl
  rw [hnone]
  constructor
  · intro hnames
    rw [h.1, hnames.unique (record_names h)]
    rfl
  · intro hop
    unfold Trace.Step.Names
    rw [record_op, hop]
    rfl

theorem record_commandText (h : t.Recordable) :
    t.record.commandText = if t.instruction.isIdle then "" else t.instruction.debugLine := by
  obtain ⟨v, hv⟩ := h.place
  have hplace := (record_names hv).place?
  unfold Trace.Step.commandText
  by_cases hop : t.instruction.op = OpCode.none
  · have hidle : t.instruction.isIdle = true := decide_eq_true hop
    rw [if_pos ((record_op_eq_none_iff hv).mpr hop), if_pos hidle]
  · have hidle : ¬ t.instruction.isIdle = true := fun hidle => hop (of_decide_eq_true hidle)
    rw [if_neg (mt (record_op_eq_none_iff hv).mp hop), if_neg hidle, hplace]
    dsimp only
    rw [record_op, Bytes.toText_ofString]
    have hsize : wordText t.record.blockSize = decimalText t.instruction.operand :=
      wordText_ofNat h.operand
    unfold Instruction.debugLine
    rw [hsize, hv.2.1, hv.2.2]

theorem record_stateText (h : t.step < 2 ^ 63) : t.record.stateText = t.debugLine := by
  have hstep : wordText t.record.step = decimalText t.step := wordText_ofNat h
  have hstack : (t.record.stack.getD []).reverse = t.stack.items := List.reverse_reverse _
  unfold Trace.Step.stateText Transition.debugLine Stack.text Pos.text
  rw [hstep, hstack, record_colour, Bytes.toText_ofString]
  simp only [String.append_assoc]
  rfl

theorem debugText_transitionNotes (s : Setup) (h : t.Recordable) :
    debugText (s.transitionNotes true t) = t.record.debugText := by
  unfold Setup.transitionNotes Trace.Step.debugText
  rw [debugText_append, debugText_append, record_commandText h, record_stateText h.step]
  cases t.fault <;> cases t.instruction.isIdle <;> simp

end Transition

namespace Walk

variable {g : Grid} {set : InstructionSet} {w : Walk g}

/-- A walk whose transitions are those of states that it came through, counted from one on. -/
structure Counted (set : InstructionSet) (w : Walk g) (e : Option Ending) : Prop where
  ready : w.Ready
  length : w.history.length + idle e = w.state.steps
  made : ∀ t ∈ w.history, ∃ s : RunState, t = s.transition g set ∧ t.step ≤ w.history.length

theorem Counted.turn (h : w.Counted set none) :
    (w.begin.advance set).1.Counted set (w.begin.advance set).2 := by
  refine ⟨h.ready.begin.advance set, length_history_turn h.ready set h.length, ?_⟩
  cases hb : (w.begin.state.move g).blocked with
  | true =>
    rw [advance_of_blocked h.ready.begin hb]
    exact h.made
  | false =>
    rw [advance_of_open h.ready.begin hb, observe_history]
    intro t ht
    rw [List.length_cons]
    rcases List.mem_cons.mp ht with rfl | ht
    · -- The step was counted when the turn began.
      have hstep : w.begin.state.steps = w.history.length + 1 := congrArg (· + 1) h.length.symm
      exact ⟨_, rfl, hstep.le⟩
    · obtain ⟨s, hs, hle⟩ := h.made t ht
      exact ⟨s, hs, Nat.le_succ_of_le hle⟩

end Walk

namespace Setup

variable {s : Setup} {sink : Sink}

theorem travel_counted (s : Setup) (trace : Option Sink) (n : Nat) :
    (s.travel trace n).1.Counted s.instructions (s.travel trace n).2 := by
  have houtset : (s.outset trace).Counted s.instructions none :=
    ⟨s.outset_ready trace, rfl, fun t ht => absurd ht List.not_mem_nil⟩
  exact Walk.travel_invariant (fun _ hw => hw.turn) n houtset

theorem walk_recordable (hlimit : s.stepLimit < 2 ^ 63) (hsize : s.program.grid.size < 2 ^ 63)
    (trace : Option Sink) : ∀ t ∈ (s.walk trace).transitions, t.Recordable := by
  intro t ht
  rw [walk_eq_close] at ht
  have hhistory : t ∈ (s.travel trace (s.turns (s.stepLimit - 1) 0)).1.history := by
    rw [← Walk.close_history s]
    exact List.mem_reverse.mp ht
  obtain ⟨st, rfl, hstep⟩ := (s.travel_counted trace _).made t hhistory
  have hlength := s.travel_length_le trace (s.turns (s.stepLimit - 1) 0)
  have hturns := s.turns_le (s.stepLimit - 1) 0
  have hoperand : (st.instruction s.program.grid).operand ≤ s.program.grid.size :=
    s.program.grid.size_blockAt_le st.pos
  exact ⟨by omega, Nat.lt_of_le_of_lt hoperand hsize, Instruction.exists_at _ _⟩

theorem debugText_notes_walk (s : Setup) (trace : Option Sink) :
    debugText (s.notes true (s.walk trace)) =
      String.join ((s.walk trace).transitions.map fun t => debugText (s.transitionNotes true t)) := by
  rw [← debugText_flatMap]
  have hending : ∃ e, (s.walk trace).ending = some e := ⟨_, rfl⟩
  obtain ⟨e, he⟩ := hending
  unfold notes
  rw [he]
  dsimp only
  rw [debugText_append, debugText_append, debugText_entry, debugText_endingNotes,
    String.append_empty, String.empty_append]

/-- The debug text says of every record in turn what the record says, and nothing else. -/
theorem debug_text_reads_the_trace (s : Setup) (sink : Sink) (htrace : s.trace = some sink)
    (haccepting : sink.Accepting) (hlimit : s.stepLimit < 2 ^ 63)
    (hsize : s.program.grid.size < 2 ^ 63) :
    (∃ k, s.execute.trace = some k ∧
      k.bytes = sink.bytes ++ Trace.encode ⟨s.header, s.execute.records⟩) ∧
    (∀ r ∈ s.execute.records, ∃! v, r.Names v) ∧
    debugText (s.notes true s.execute) =
      String.join (s.execute.records.map Trace.Step.debugText) := by
  have hexecute := execute_of_takes htrace (haccepting.takes s.header.encode)
  have hrecordable := walk_recordable hlimit hsize (some (sink.write s.header.encode))
  rw [← hexecute] at hrecordable
  refine ⟨?_, ?_, ?_⟩
  · obtain ⟨w, e, hw, hkeeps⟩ := execute_keeps htrace haccepting
    obtain ⟨k, hk, _, htaken⟩ := hkeeps.trace
    rw [hw]
    exact ⟨k, hk, Sink.bytes_of_taken htaken⟩
  · intro r hr
    obtain ⟨t, ht, rfl⟩ := List.mem_map.mp hr
    obtain ⟨v, hv⟩ := (hrecordable t ht).place
    have hnames := Transition.record_names hv
    exact ⟨v, hnames, fun _ => hnames.unique⟩
  · have hlines : ∀ t ∈ s.execute.transitions,
        debugText (s.transitionNotes true t) = t.record.debugText :=
      fun t ht => Transition.debugText_transitionNotes s (hrecordable t ht)
    have hnotes : debugText (s.notes true s.execute) =
        String.join (s.execute.transitions.map fun t => debugText (s.transitionNotes true t)) := by
      rw [hexecute]
      exact s.debugText_notes_walk _
    rw [hnotes, Outcome.records, List.map_map, List.map_congr_left hlines]
    rfl

/-- A push and a step onto white, which has no command, before the limit stops the run. -/
theorem debug_text_reads_the_trace_white : ∃ (s : Setup) (sink : Sink),
    s.trace = some sink ∧ sink.Accepting ∧ s.stepLimit < 2 ^ 63 ∧
    s.program.grid.size < 2 ^ 63 ∧ s.execute.state.status = .stepLimit ∧
    (∀ r ∈ s.execute.records, ∃! v, r.Names v) ∧
    s.execute.records.map Trace.Step.op = [Bytes.ofString "push", Bytes.ofString "none"] ∧
    debugText (s.notes true s.execute) = String.join (s.execute.records.map Trace.Step.debugText) ∧
    s.execute.records.map Trace.Step.debugText =
      ["  Command: push (blockSize: 2, hue: 0, light: 1)\nStep 1: Pos(2,0) Color:Red Stack:[2]\n",
        "Step 2: Pos(3,0) Color:White Stack:[2]\n"] := by
  let s : Setup := {
    program := { grid := Grid.ofFn 4 1 fun x _ =>
      if x ≤ 1 then .ofHue 0 0 else if x = 2 then .ofHue 0 1 else .white }
    run := RunId.nil
    stepLimit := 3
    trace := some {} }
  have haccepting : ({} : Sink).Accepting := fun _ _ => rfl
  have hlimit : s.stepLimit < 2 ^ 63 := by decide
  have hsize : s.program.grid.size < 2 ^ 63 := by decide
  obtain ⟨_, hnames, htext⟩ := debug_text_reads_the_trace s {} rfl haccepting hlimit hsize
  exact ⟨s, {}, rfl, haccepting, hlimit, hsize, by decide +kernel, hnames, by decide +kernel, htext,
    by decide +kernel⟩

end Setup

end Codel
