import Codel.Proofs.Machine.Sink
import Codel.Proofs.Run.Trajectory

namespace Codel

/-- The steps without a transition of a run that ends so. -/
def Ending.idle : Ending → Nat
  | blocked => 1
  | stepLimit => 1
  | canceled _ => 0
  | untraced _ => 0

theorem Ending.idle_eq (e : Ending) :
    e.idle = if e.status = .blocked ∨ e.status = .stepLimit then 1 else 0 := by
  cases e with
  | canceled cause => cases cause <;> rfl
  | _ => rfl

namespace Walk

variable {g : Grid} {set : InstructionSet} {w w' : Walk g} {n : Nat}

theorem advance_of_blocked (h : w.Ready) (hb : (w.state.move g).blocked = true) :
    w.advance set = ({ w with state := w.state.turn (w.state.move g), locator := w.nextLocator },
      some .blocked) := by
  rw [advance_eq set h.locator h.oriented]
  exact if_pos hb

theorem advance_of_open (h : w.Ready) (hb : (w.state.move g).blocked = false) :
    w.advance set = { w with
      state := w.state.crossed g set
      locator := w.nextLocator
      counters := w.counters.count (w.state.instruction g) }.observe (w.state.transition g set) := by
  rw [advance_eq set h.locator h.oriented]
  exact if_neg (Bool.eq_false_iff.mp hb)

theorem observe_trace (w : Walk g) (t : Transition) :
    (w.observe t).1.trace = w.trace.map fun k => k.write t.record.encode := by
  rw [observe_fst]

section Extension

/-- What was taken by the sink of a trace, if there is one, the latest first. -/
def recorded : Option Sink → List Bytes
  | some k => k.taken
  | none => []

/-- What `w` has shown is the beginning of what `w'` has. -/
structure Extends (w w' : Walk g) : Prop where
  history : w.history <:+ w'.history
  output : w.state.machine.output.taken <:+ w'.state.machine.output.taken
  trace : recorded w.trace <:+ recorded w'.trace

theorem Extends.refl (w : Walk g) : w.Extends w :=
  ⟨List.suffix_rfl, List.suffix_rfl, List.suffix_rfl⟩

theorem Extends.trans {w'' : Walk g} (h : w.Extends w') (h' : w'.Extends w'') : w.Extends w'' :=
  ⟨h.history.trans h'.history, h.output.trans h'.output, h.trace.trans h'.trace⟩

theorem extends_tick (w : Walk g) : w.Extends w.tick :=
  ⟨List.suffix_rfl, List.suffix_rfl, List.suffix_rfl⟩

theorem tick_extends (w : Walk g) : w.tick.Extends w :=
  ⟨List.suffix_rfl, List.suffix_rfl, List.suffix_rfl⟩

theorem extends_begin (w : Walk g) : w.Extends w.begin :=
  ⟨List.suffix_rfl, List.suffix_rfl, List.suffix_rfl⟩

theorem extends_advance (h : w.Ready) (set : InstructionSet) : w.Extends (w.advance set).1 := by
  cases hb : (w.state.move g).blocked with
  | true =>
    rw [advance_of_blocked h hb]
    exact ⟨List.suffix_rfl, List.suffix_rfl, List.suffix_rfl⟩
  | false =>
    rw [advance_of_open h hb]
    refine ⟨?_, ?_, ?_⟩
    · rw [observe_history]
      exact List.suffix_cons _ _
    · rw [observe_state]
      exact set.taken_suffix_execute _ (w.state.turn (w.state.move g)).machine
    · rw [observe_trace]
      dsimp only
      cases w.trace with
      | none => exact List.suffix_rfl
      | some k => exact k.taken_suffix_write _

theorem extends_travel (h : w.Ready) (set : InstructionSet) (n : Nat) :
    w.Extends (travel set n w).1 := by
  refine (travel_invariant (P := fun w' _ => w'.Ready ∧ w.Extends w') ?_ n ⟨h, .refl w⟩).2
  intro w' ⟨hready, hextends⟩
  have hturn := (extends_begin w').trans (extends_advance hready.begin set)
  exact ⟨hready.begin.advance set, hextends.trans hturn⟩

end Extension

section Ending

/-- A walk whose trace takes every write. -/
def Accepting (w : Walk g) : Prop := ∀ k, w.trace = some k → k.Accepting

theorem observe_ending (h : w.Accepting) (t : Transition) : (w.observe t).2 = none := by
  unfold observe
  split
  next => rfl
  next k hk => exact if_pos ((h k hk).takes _)

theorem Accepting.advance (hr : w.Ready) (h : w.Accepting) (set : InstructionSet) :
    (w.advance set).1.Accepting := by
  cases hb : (w.state.move g).blocked with
  | true =>
    rw [advance_of_blocked hr hb]
    exact h
  | false =>
    intro k hk
    rw [advance_of_open hr hb, observe_trace] at hk
    obtain ⟨k', hk', rfl⟩ := Option.map_eq_some_iff.mp hk
    exact (h k' hk').write _

theorem advance_ending (hr : w.Ready) (h : w.Accepting) (set : InstructionSet) :
    (w.advance set).2 = if (w.state.move g).blocked then some .blocked else none := by
  cases hb : (w.state.move g).blocked with
  | true => rw [advance_of_blocked hr hb]; rfl
  | false =>
    rw [advance_of_open hr hb]
    exact observe_ending (by exact h) _

theorem travel_ending (hr : w.Ready) (h : w.Accepting) (set : InstructionSet) (n : Nat) :
    (travel set n w).2 = none ∨ (travel set n w).2 = some .blocked := by
  refine (travel_invariant (P := fun w e => (w.Ready ∧ w.Accepting) ∧ (e = none ∨ e = some .blocked))
    ?_ n ⟨⟨hr, h⟩, Or.inl rfl⟩).2
  intro w ⟨⟨hready, haccepting⟩, _⟩
  refine ⟨⟨hready.begin.advance set, Accepting.advance hready.begin haccepting set⟩, ?_⟩
  rw [advance_ending hready.begin haccepting]
  split
  · exact Or.inr rfl
  · exact Or.inl rfl

end Ending

section Transitions

/-- The steps without a transition of a run that has ended, or has not. -/
def idle : Option Ending → Nat
  | some e => e.idle
  | none => 0

theorem idle_observe (w : Walk g) (t : Transition) : idle (w.observe t).2 = 0 := by
  unfold observe
  split
  · rfl
  · dsimp only
    split <;> rfl

/-- A turn that finds the way out closed makes no transition, any other turn makes one. -/
theorem length_history_advance (h : w.Ready) (set : InstructionSet) :
    (w.advance set).1.history.length + idle (w.advance set).2 = w.history.length + 1 := by
  cases hb : (w.state.move g).blocked with
  | true =>
    rw [advance_of_blocked h hb]
    rfl
  | false =>
    rw [advance_of_open h hb, observe_history, idle_observe]
    rfl

theorem length_history_turn (hr : w.Ready) (set : InstructionSet)
    (h : w.history.length = w.state.steps) :
    (w.begin.advance set).1.history.length + idle (w.begin.advance set).2 =
      (w.begin.advance set).1.state.steps := by
  rw [length_history_advance hr.begin, begin_advance_steps, ← h]
  rfl

/-- So a run has a transition for every step that it has counted, the last one apart if it led
nowhere. -/
theorem length_history_travel (hr : w.Ready) (set : InstructionSet) (n : Nat)
    (h : w.history.length = w.state.steps) :
    (travel set n w).1.history.length + idle (travel set n w).2 =
      (travel set n w).1.state.steps := by
  refine (travel_invariant
    (P := fun w e => w.Ready ∧ w.history.length + idle e = w.state.steps) ?_ n ⟨hr, h⟩).2
  intro w ⟨hready, hlength⟩
  exact ⟨hready.begin.advance set, length_history_turn hready set hlength⟩

end Transitions

end Walk

namespace Setup

variable {s : Setup} {trace : Option Sink} {n : Nat}

theorem travel_extends (s : Setup) (trace : Option Sink) {m n : Nat} (hle : m ≤ n) :
    (s.travel trace m).1.Extends (s.travel trace n).1 := by
  cases hm : (s.travel trace m).2 with
  | some e =>
    rw [travel_of_ended hle hm]
    exact .refl _
  | none =>
    obtain ⟨k, rfl⟩ := Nat.exists_eq_add_of_le hle
    have hadd : s.travel trace (m + k) = Walk.travel s.instructions k (s.travel trace m).1 :=
      Walk.travel_add_of_none hm k
    rw [hadd]
    exact Walk.extends_travel ((s.outset_ready trace).travel m) s.instructions k

theorem travel_length_add_idle (s : Setup) (trace : Option Sink) (n : Nat) :
    (s.travel trace n).1.history.length + Walk.idle (s.travel trace n).2 =
      (s.travel trace n).1.state.steps :=
  Walk.length_history_travel (s.outset_ready trace) s.instructions n rfl

theorem travel_length (h : (s.travel trace n).2 = none) :
    (s.travel trace n).1.history.length = n := by
  have hlength := s.travel_length_add_idle trace n
  rwa [h, travel_steps h] at hlength

theorem travel_length_le (s : Setup) (trace : Option Sink) (n : Nat) :
    (s.travel trace n).1.history.length ≤ n := by
  cases hout : (s.travel trace n).2 with
  | none => exact (travel_length hout).le
  | some e =>
    have hlength := s.travel_length_add_idle trace n
    have hsteps := travel_steps_le hout
    omega

/-- A run makes fewer transitions than its step limit says steps. -/
theorem length_walk_transitions (s : Setup) (trace : Option Sink) :
    (s.walk trace).transitions.length ≤ s.stepLimit - 1 := by
  rw [walk_eq_close]
  change (Walk.close s _).1.history.reverse.length ≤ _
  rw [List.length_reverse, Walk.close_history]
  exact (s.travel_length_le trace _).trans (s.turns_le _ 0)

/-- A setup whose trace, if it has one, takes every write. -/
def Accepting (s : Setup) : Prop := ∀ k, s.trace = some k → k.Accepting

/-- The trace once its header is written. -/
def opened (s : Setup) : Option Sink := s.trace.map fun k => k.write s.header.encode

/-- The trace does not take the header. -/
def Unopened (s : Setup) : Prop := ∃ sink, s.trace = some sink ∧ sink.takes s.header.encode = false

theorem execute_of_opened (h : ¬ s.Unopened) : s.execute = s.walk s.opened := by
  unfold execute opened
  split
  next hnone =>
    rw [hnone]
    rfl
  next sink htrace =>
    have htakes : sink.takes s.header.encode = true := by
      rw [← Bool.not_eq_false]
      exact fun hrefused => h ⟨sink, htrace, hrefused⟩
    rw [htrace]
    exact if_pos htakes

theorem execute_of_takes {k : Sink} (htrace : s.trace = some k)
    (htakes : k.takes s.header.encode = true) :
    s.execute = s.walk (some (k.write s.header.encode)) := by
  unfold execute
  rw [htrace]
  exact if_pos htakes

theorem execute_of_refused {k : Sink} (htrace : s.trace = some k)
    (hrefused : k.takes s.header.encode = false) :
    s.execute =
      { state := { machine := s.machine }
        ending := none
        error := some (.untraced (.header k.cause))
        transitions := []
        trace := some (k.write s.header.encode) } := by
  unfold execute
  rw [htrace]
  exact if_neg (Bool.eq_false_iff.mp hrefused)

theorem execute_eq_walk (h : s.Accepting) : s.execute = s.walk s.opened := by
  apply execute_of_opened
  rintro ⟨k, hk, hrefused⟩
  rw [(h k hk).takes] at hrefused
  simp at hrefused

theorem outset_accepting (h : s.Accepting) : (s.outset s.opened).Accepting := by
  intro k hk
  obtain ⟨k', hk', rfl⟩ := Option.map_eq_some_iff.mp hk
  exact (h k' hk').write _

end Setup

end Codel
