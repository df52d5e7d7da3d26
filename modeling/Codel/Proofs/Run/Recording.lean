import Codel.Proofs.Machine.Writes
import Codel.Proofs.Run.Growth

namespace Codel

/-- The writes that put transitions, the latest first, on record. -/
def recordWrites (history : List Transition) : List Bytes :=
  history.reverse.map fun t => t.record.encode

theorem recordWrites_cons (t : Transition) (history : List Transition) :
    recordWrites (t :: history) = recordWrites history ++ [t.record.encode] := by
  unfold recordWrites
  rw [List.reverse_cons, List.map_append]
  rfl

namespace Walk

variable {g : Grid} {set : InstructionSet} {w : Walk g} {k : Sink}

/-- The walk with its history recorded by a sink. -/
def recordedBy (k : Sink) (w : Walk g) : Walk g :=
  { w with trace := some (k.writes (recordWrites w.history)) }

theorem Ready.recordedBy (h : w.Ready) (k : Sink) : (w.recordedBy k).Ready :=
  ⟨h.locator, h.oriented⟩

/-- The trace has a say only in whether the run goes on after a transition. -/
theorem observe_recordedBy (w : Walk g) (t : Transition) (k : Sink) :
    (w.recordedBy k).observe t =
      ((w.observe t).1.recordedBy k,
        if (k.writes (recordWrites w.history)).takes t.record.encode then none
        else some (.untraced (.step (Int64.ofNat t.step) k.cause))) := by
  have hwrites := k.writes_concat (recordWrites w.history) t.record.encode
  rw [← recordWrites_cons, ← observe_history w] at hwrites
  have hcause := k.writes_cause (recordWrites w.history)
  obtain ⟨state, locator, trace, counters, history⟩ := w
  unfold observe Walk.recordedBy
  dsimp only
  rw [← hcause, ← hwrites]
  cases trace <;> rfl

theorem advance_trace (h : w.Ready) (htrace : w.trace = none) (set : InstructionSet) :
    (w.advance set).1.trace = none := by
  cases hb : (w.state.move g).blocked with
  | true =>
    rw [advance_of_blocked h hb]
    exact htrace
  | false =>
    rw [advance_of_open h hb, observe_trace]
    exact congrArg (Option.map _) htrace

/-- The walk beyond the way out, its transition not yet observed. -/
def landed (set : InstructionSet) (w : Walk g) : Walk g :=
  { w with
    state := w.state.crossed g set
    locator := w.nextLocator
    counters := w.counters.count (w.state.instruction g) }

theorem advance_eq_observe (h : w.Ready) (hb : (w.state.move g).blocked = false)
    (set : InstructionSet) :
    w.advance set = (w.landed set).observe (w.state.transition g set) := advance_of_open h hb

theorem advance_recordedBy_of_open (h : w.Ready) (hb : (w.state.move g).blocked = false)
    (k : Sink) :
    (w.recordedBy k).advance set = ((w.advance set).1.recordedBy k,
      if (k.writes (recordWrites w.history)).takes (w.state.transition g set).record.encode
      then none else some (.untraced (.step (Int64.ofNat w.state.steps) k.cause))) := by
  have hopen := advance_eq_observe (h.recordedBy k) hb set
  rw [advance_eq_observe h hb, hopen]
  exact observe_recordedBy (w.landed set) _ k

theorem takesAll_advance_of_open (h : w.Ready) (hb : (w.state.move g).blocked = false) :
    k.TakesAll (recordWrites (w.advance set).1.history) ↔
      k.TakesAll (recordWrites w.history) ∧ (k.writes (recordWrites w.history)).takes
        (w.state.transition g set).record.encode = true := by
  rw [advance_of_open h hb, observe_history, recordWrites_cons, Sink.takesAll_concat]

theorem takesAll_of_advance (h : w.Ready)
    (hall : k.TakesAll (recordWrites (w.advance set).1.history)) :
    k.TakesAll (recordWrites w.history) := by
  cases hb : (w.state.move g).blocked with
  | true =>
    rw [advance_of_blocked h hb] at hall
    exact hall
  | false => exact ((takesAll_advance_of_open h hb).mp hall).1

theorem advance_recordedBy (h : w.Ready) (htrace : w.trace = none)
    (hall : k.TakesAll (recordWrites (w.advance set).1.history)) :
    (w.recordedBy k).advance set = ((w.advance set).1.recordedBy k, (w.advance set).2) := by
  cases hb : (w.state.move g).blocked with
  | true =>
    rw [advance_of_blocked h hb]
    exact advance_of_blocked (h.recordedBy k) hb
  | false =>
    have haccepting : w.Accepting := fun _ hk => by simp [htrace] at hk
    have hending := advance_ending h haccepting set
    rw [advance_recordedBy_of_open h hb, hending, hb,
      if_pos ((takesAll_advance_of_open h hb).mp hall).2]
    rfl

theorem advance_recordedBy_of_refused (h : w.Ready) (hopen : (w.advance set).2 = none)
    (hbefore : k.TakesAll (recordWrites w.history))
    (hrefused : ¬ k.TakesAll (recordWrites (w.advance set).1.history)) :
    (w.recordedBy k).advance set = ((w.advance set).1.recordedBy k,
      some (.untraced (.step (Int64.ofNat w.state.steps) k.cause))) := by
  have hb : (w.state.move g).blocked = false := by
    rw [Bool.eq_false_iff]
    intro hb
    rw [advance_of_blocked h hb] at hopen
    simp at hopen
  have htakes : ¬ (k.writes (recordWrites w.history)).takes
      (w.state.transition g set).record.encode = true :=
    fun htakes => hrefused ((takesAll_advance_of_open h hb).mpr ⟨hbefore, htakes⟩)
  rw [advance_recordedBy_of_open h hb, if_neg htakes]

theorem close_recordedBy (s : Setup) (r : Walk g × Option Ending) (k : Sink) :
    close s (r.1.recordedBy k, r.2) = ((close s r).1.recordedBy k, (close s r).2) := by
  obtain ⟨hwalk, hending⟩ :
      (close s (r.1.recordedBy k, r.2)).1 = (close s r).1.recordedBy k ∧
        (close s (r.1.recordedBy k, r.2)).2 = (close s r).2 :=
    close_side_by_side (R := fun w w' => w' = w.recordedBy k) s s rfl
      (fun _ _ hw => congrArg tick hw) (fun _ _ hw => congrArg (fun w => w.state.steps) hw) rfl rfl
  exact Prod.ext hwalk hending

end Walk

namespace Setup

variable {s : Setup} {k : Sink} {m n : Nat}

theorem travel_ready (s : Setup) (trace : Option Sink) (n : Nat) : (s.travel trace n).1.Ready :=
  (s.outset_ready trace).travel n

theorem travel_trace (s : Setup) (n : Nat) : (s.travel none n).1.trace = none := by
  refine (Walk.travel_invariant (P := fun w _ => w.Ready ∧ w.trace = none) ?_ n
    ⟨s.outset_ready none, rfl⟩).2
  intro w ⟨hready, htrace⟩
  exact ⟨hready.begin.advance _, Walk.advance_trace hready.begin htrace _⟩

/-- While the trace takes every record, it changes nothing. -/
theorem travel_recorded (h : k.TakesAll (recordWrites (s.travel none n).1.history)) :
    s.travel (some k) n = ((s.travel none n).1.recordedBy k, (s.travel none n).2) := by
  -- The run without a trace says what there is to record, so the induction is on its turns.
  induction n with
  | zero => rfl
  | succ n ih =>
    cases hout : (s.travel none n).2 with
    | some e =>
      rw [travel_of_ended n.le_succ hout] at h ⊢
      have hsame := ih h
      rw [← hsame]
      exact travel_of_ended n.le_succ ((congrArg Prod.snd hsame).trans hout)
    | none =>
      have hready := (s.travel_ready none n).begin
      rw [travel_succ hout] at h ⊢
      have hbefore := Walk.takesAll_of_advance hready h
      have hsame := ih hbefore
      rw [travel_succ ((congrArg Prod.snd hsame).trans hout), hsame]
      exact Walk.advance_recordedBy hready (s.travel_trace n) h

/-- The first record that a trace refuses is the last of the run. -/
theorem travel_refused (hopen : (s.travel none (n + 1)).2 = none)
    (hbefore : k.TakesAll (recordWrites (s.travel none n).1.history))
    (hrefused : ¬ k.TakesAll (recordWrites (s.travel none (n + 1)).1.history)) :
    s.travel (some k) (n + 1) = ((s.travel none (n + 1)).1.recordedBy k,
      some (.untraced (.step (Int64.ofNat (n + 1)) k.cause))) := by
  have hout := travel_none_of_le n.le_succ hopen
  have hsame := travel_recorded hbefore
  have hready := (s.travel_ready none n).begin
  have hsteps : (s.travel none n).1.begin.state.steps = n + 1 :=
    congrArg (· + 1) (travel_steps hout)
  rw [travel_succ hout] at hopen hrefused ⊢
  rw [travel_succ ((congrArg Prod.snd hsame).trans hout), hsame, ← hsteps]
  exact Walk.advance_recordedBy_of_refused hready hopen hbefore hrefused

theorem travel_none_ending (s : Setup) (n : Nat) :
    (s.travel none n).2 = none ∨ (s.travel none n).2 = some .blocked := by
  refine Walk.travel_ending (s.outset_ready none) ?_ s.instructions n
  rintro k ⟨⟩

/-- A run that makes `m` transitions goes on after each of the first `m` turns. -/
theorem travel_none_of_le_length (h : m ≤ (s.travel none n).1.history.length) :
    (s.travel none m).2 = none := by
  have hle := h.trans (s.travel_length_le none n)
  rcases s.travel_none_ending m with hnone | hblocked
  · exact hnone
  · -- A run that ended blocked has counted one step more than it has made transitions.
    have hlength := s.travel_length_add_idle none m
    have hsteps := travel_steps_le hblocked
    rw [travel_of_ended hle hblocked] at h
    rw [hblocked] at hlength
    change _ + 1 = _ at hlength
    omega

theorem reverse_history_travel (h : m ≤ (s.travel none n).1.history.length) :
    (s.travel none m).1.history.reverse = (s.travel none n).1.history.reverse.take m := by
  have hlength := travel_length (travel_none_of_le_length h)
  have hextends := travel_extends s none (h.trans (s.travel_length_le none n))
  have htake := List.prefix_iff_eq_take.mp (List.reverse_prefix.mpr hextends.history)
  rwa [List.length_reverse, hlength] at htake

/-- The transitions that a run makes before it ends by itself or is stopped, the latest first. -/
def made (s : Setup) : List Transition := (s.travel none (s.turns (s.stepLimit - 1) 0)).1.history

/-- Everything that a run gives its trace to write if nothing is refused. -/
def traceWrites (s : Setup) : List Bytes := s.header.encode :: recordWrites s.made

theorem execute_untraced (s : Setup) : ({ s with trace := none } : Setup).execute =
    (Walk.close s (s.travel none (s.turns (s.stepLimit - 1) 0))).1.outcome
      (Walk.close s (s.travel none (s.turns (s.stepLimit - 1) 0))).2 :=
  walk_eq_close { s with trace := none } none

theorem close_made (s : Setup) :
    (Walk.close s (s.travel none (s.turns (s.stepLimit - 1) 0))).1.history = s.made :=
  Walk.close_history s _

/-- A run whose trace takes everything comes to what it comes to without a trace. -/
theorem execute_recorded (htrace : s.trace = some k) (h : k.TakesAll s.traceWrites) :
    s.execute = { ({ s with trace := none } : Setup).execute with
      trace := some (k.writes s.traceWrites) } := by
  obtain ⟨hheader, hrecords⟩ := h
  rw [execute_of_takes htrace hheader, execute_untraced, walk_eq_close, travel_recorded hrecords,
    Walk.close_recordedBy]
  unfold Walk.outcome Walk.recordedBy
  rw [close_made]
  rfl

theorem untraced_of_none (h : s.trace = none) : ({ s with trace := none } : Setup) = s := by
  cases s
  cases h
  rfl

theorem length_traceWrites (s : Setup) : s.traceWrites.length = s.made.length + 1 := by
  simp [traceWrites, recordWrites]

theorem traceWrites_take (h : m ≤ s.made.length) :
    s.traceWrites.take (m + 1) = s.header.encode :: recordWrites (s.travel none m).1.history := by
  have hmade : (s.travel none m).1.history.reverse = s.made.reverse.take m :=
    reverse_history_travel h
  unfold traceWrites recordWrites
  rw [List.take_succ_cons, ← List.map_take, hmade]

/-- A run whose trace takes the header and `m` records and refuses the next one. -/
theorem execute_misfit (htrace : s.trace = some k) (hlt : m < s.made.length)
    (hfits : k.TakesAll (s.header.encode :: recordWrites (s.travel none m).1.history))
    (hrefused : ¬ k.TakesAll
      (s.header.encode :: recordWrites (s.travel none (m + 1)).1.history)) :
    s.execute = ((s.travel none (m + 1)).1.recordedBy (k.write s.header.encode)).outcome
      (.untraced (.step (Int64.ofNat (m + 1)) k.cause)) := by
  obtain ⟨hheader, hbefore⟩ := hfits
  have hmisfit : ¬ (k.write s.header.encode).TakesAll
      (recordWrites (s.travel none (m + 1)).1.history) := fun hall => hrefused ⟨hheader, hall⟩
  have hended := travel_refused (travel_none_of_le_length hlt) hbefore hmisfit
  have hlast := travel_of_ended (hlt.trans_le (s.travel_length_le none _))
    (congrArg Prod.snd hended)
  rw [hended] at hlast
  rw [execute_of_takes htrace hheader, walk_of_ended rfl (congrArg Prod.snd hlast), hlast]
  rfl

theorem execute_of_fitting (htrace : s.trace = some k) (hlt : m < s.made.length)
    (hfit : k.fitting s.traceWrites = m + 1) :
    s.execute = ((s.travel none (m + 1)).1.recordedBy (k.write s.header.encode)).outcome
      (.untraced (.step (Int64.ofNat (m + 1)) k.cause)) := by
  have hlength := s.length_traceWrites
  have hfits : k.TakesAll (s.traceWrites.take (m + 1)) := by
    rw [Sink.takesAll_take_iff (by omega)]
    exact hfit.ge
  have hrefused : ¬ k.TakesAll (s.traceWrites.take (m + 2)) := by
    rw [Sink.takesAll_take_iff (by omega)]
    omega
  rw [traceWrites_take hlt.le] at hfits
  rw [traceWrites_take hlt] at hrefused
  exact execute_misfit htrace hlt hfits hrefused

end Setup

end Codel
