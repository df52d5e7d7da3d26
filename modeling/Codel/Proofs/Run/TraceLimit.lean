import Codel.Proofs.Run.Cutting
import Codel.Proofs.Run.Leaving
import Codel.Proofs.Run.Logbook
import Codel.Proofs.Run.Recording

namespace Codel

namespace Setup

variable {s : Setup} {k : Sink} {m n : Nat}

theorem travel_sound (s : Setup) (trace : Option Sink) (n : Nat) : (s.travel trace n).1.Sound :=
  Walk.travel_invariant (P := fun w _ => w.Sound) (fun _ hw => hw.begin.advance _) n
    (s.outset_sound trace)

/-- The run without cancellation, its trace written to a sink. -/
def recordedBy (s : Setup) (k : Sink) : Setup := { s with cancellation := none, trace := some k }

/-- How many bytes the header and the first `m` records take where nothing is refused. -/
def traceSize (s : Setup) (m : Nat) : Nat :=
  (Trace.encode ⟨s.header, (s.recordedBy {}).execute.records.take m⟩).length

theorem records_recordedBy (s : Setup) : (s.recordedBy {}).execute.records =
    (s.travel none (s.stepLimit - 1)).1.history.reverse.map Transition.record := by
  unfold Outcome.records
  rw [execute_recorded rfl (Sink.accepting_default.takesAll _), execute_untraced]
  change List.map _ (Walk.close _ _).1.history.reverse = _
  rw [close_made]
  rfl

theorem traceSize_eq (h : m ≤ (s.travel none (s.stepLimit - 1)).1.history.length) :
    s.traceSize m =
      (s.header.encode :: recordWrites (s.travel none m).1.history).flatten.length := by
  unfold traceSize Trace.encode recordWrites
  rw [records_recordedBy, ← List.map_take, ← reverse_history_travel h, List.flatMap_def,
    List.map_map]
  rfl

theorem traceSize_le_iff (h : m ≤ (s.travel none (s.stepLimit - 1)).1.history.length) :
    s.traceSize m ≤ n ↔ (Sink.closing n).TakesAll
      (s.header.encode :: recordWrites (s.travel none m).1.history) := by
  rw [traceSize_eq h, Sink.closing_takesAll_iff]

theorem traceSize_of_length_le (h : (s.travel none (s.stepLimit - 1)).1.history.length ≤ m) :
    s.traceSize m = s.traceSize (s.travel none (s.stepLimit - 1)).1.history.length := by
  unfold traceSize
  rw [records_recordedBy, List.take_of_length_le (by simpa using h),
    List.take_of_length_le (by simp)]

theorem not_takes_header (h : n < s.traceSize 0) :
    (Sink.closing n).takes s.header.encode = false := by
  have hsize := traceSize_le_iff (s := s) (n := n) (Nat.zero_le _)
  rw [← Bool.not_eq_true]
  intro htakes
  exact absurd (hsize.mpr ⟨htakes, trivial⟩) (Nat.not_le.mpr h)

/-- The run that is stopped by its trace at the record of step `m + 1`. -/
theorem execute_closing (hbefore : s.traceSize m ≤ n) (hafter : n < s.traceSize (m + 1)) :
    m < (s.travel none (s.stepLimit - 1)).1.history.length ∧
    (s.recordedBy (Sink.closing n)).execute =
      ((s.travel none (m + 1)).1.recordedBy ((Sink.closing n).write s.header.encode)).outcome
        (.untraced (.step (Int64.ofNat (m + 1)) "closed")) := by
  have hlt : m < (s.travel none (s.stepLimit - 1)).1.history.length := by
    -- Beyond the last record nothing is added, so what fits before fits after.
    by_contra hge
    rw [Nat.not_lt] at hge
    rw [traceSize_of_length_le hge] at hbefore
    rw [traceSize_of_length_le (hge.trans m.le_succ)] at hafter
    omega
  refine ⟨hlt, ?_⟩
  have hfits := (traceSize_le_iff hlt.le).mp hbefore
  have hrefused : ¬ (Sink.closing n).TakesAll
      (s.header.encode :: recordWrites (s.travel none (m + 1)).1.history) :=
    fun hall => absurd ((traceSize_le_iff hlt).mpr hall) (Nat.not_le.mpr hafter)
  exact execute_misfit (s := s.recordedBy (Sink.closing n)) rfl hlt hfits hrefused

theorem execute_within_recordedBy (h : m < (s.travel none (s.stepLimit - 1)).1.history.length) :
    ((s.recordedBy {}).within (m + 2)).execute.state.machine =
      (s.travel none (m + 1)).1.state.machine := by
  have hnone := travel_none_of_le_length h
  rw [execute_recorded rfl (Sink.accepting_default.takesAll _), execute_untraced]
  change ((Walk.close ((s.recordedBy {}).within (m + 2)) (s.travel none (m + 1))).1.outcome
    _).state.machine = _
  rw [Walk.outcome_machine, Walk.close_of_none hnone, Walk.halt_stepLimit rfl]
  rfl

theorem travel_shows (s : Setup) (trace : Option Sink) {t : Transition} {earlier : List Transition}
    (h : (s.travel trace n).1.history = t :: earlier) :
    t.record.Shows (s.travel trace n).1.state.pos (s.travel trace n).1.state.machine := by
  have hsnapshot := (s.travel_sound trace n).snapshot
  rw [h] at hsnapshot
  have hpos : (s.travel trace n).1.state.pos = t.pos := congrArg Snapshot.pos hsnapshot
  rw [hpos]
  exact Transition.record_shows (congrArg Snapshot.dp hsnapshot).symm
    (congrArg Snapshot.cc hsnapshot).symm (congrArg Snapshot.stack hsnapshot).symm

theorem getElem?_records_recordedBy (h : m < (s.travel none (s.stepLimit - 1)).1.history.length)
    {t : Transition} {earlier : List Transition}
    (hhistory : (s.travel none (m + 1)).1.history = t :: earlier) :
    (s.recordedBy {}).execute.records[m]? = some t.record := by
  have hlength := travel_length (travel_none_of_le_length h)
  have htake := reverse_history_travel h
  rw [hhistory] at hlength htake
  have hlast : (t :: earlier).reverse[m]? = some t := by
    rw [List.reverse_cons, ← Nat.succ_injective hlength, ← List.length_reverse,
      List.getElem?_concat_length]
  rw [htake, List.getElem?_take_of_lt m.lt_succ_self] at hlast
  rw [records_recordedBy, List.getElem?_map, hlast]
  rfl

theorem takesAll_traceWrites (h : ∀ m, s.traceSize m ≤ n) :
    (Sink.closing n).TakesAll (s.recordedBy (Sink.closing n)).traceWrites := by
  have htake := reverse_history_travel (s := s) (n := s.stepLimit - 1) le_rfl
  rw [← List.length_reverse, List.take_length, List.length_reverse] at htake
  have hall := (traceSize_le_iff le_rfl).mp
    (h (s.travel none (s.stepLimit - 1)).1.history.length)
  rw [List.reverse_injective htake] at hall
  exact hall

theorem traceBytes_recordedBy (h : k.TakesAll (s.recordedBy k).traceWrites) :
    (s.recordedBy k).execute.traceBytes = k.bytes ++ (s.recordedBy {}).traceWrites.flatten := by
  rw [execute_recorded rfl h]
  exact h.bytes

/-- A trace of limited size lets the run go on up to the first record that does not fit. Without
room for the header nothing is executed; with room for everything the limit shows nowhere. -/
theorem trace_limit_stops_at_first_misfit (s : Setup) (n : Nat) :
    (n < s.traceSize 0 →
      (s.recordedBy (Sink.closing n)).execute.error = some (.untraced (.header "closed")) ∧
      (s.recordedBy (Sink.closing n)).execute.state.status = .new ∧
      (s.recordedBy (Sink.closing n)).execute.state.steps = 0 ∧
      (s.recordedBy (Sink.closing n)).execute.state.machine = s.machine) ∧
    (s.traceSize 0 ≤ n → ∀ m, n < s.traceSize m → (∀ j < m, s.traceSize j ≤ n) →
      (s.recordedBy (Sink.closing n)).execute.error =
        some (.untraced (.step (Int64.ofNat m) "closed")) ∧
      (s.recordedBy (Sink.closing n)).execute.state.status = .exit ∧
      (s.recordedBy (Sink.closing n)).execute.state.steps = m ∧
      (∃ r, (s.recordedBy {}).execute.records[m - 1]? = some r ∧
        r.Shows (s.recordedBy (Sink.closing n)).execute.state.pos
          (s.recordedBy (Sink.closing n)).execute.state.machine) ∧
      (s.recordedBy (Sink.closing n)).execute.state.machine =
        ((s.recordedBy {}).within (m + 1)).execute.state.machine) ∧
    ((∀ m, s.traceSize m ≤ n) →
      ({ (s.recordedBy (Sink.closing n)).execute with trace := none } : Outcome) =
        { (s.recordedBy {}).execute with trace := none } ∧
      (s.recordedBy (Sink.closing n)).execute.traceBytes =
        (s.recordedBy {}).execute.traceBytes) := by
  refine ⟨fun hheader => ?_, fun hheader m hafter hbefore => ?_, fun hroom => ?_⟩
  · rw [execute_of_refused (s := s.recordedBy (Sink.closing n)) rfl (not_takes_header hheader)]
    exact ⟨rfl, rfl, rfl, rfl⟩
  · obtain _ | m := m
    · exact absurd hheader (Nat.not_le.mpr hafter)
    obtain ⟨hlt, hexecute⟩ := execute_closing (hbefore m m.lt_succ_self) hafter
    have hnone := travel_none_of_le_length hlt
    obtain ⟨t, earlier, hhistory⟩ : ∃ t earlier, (s.travel none (m + 1)).1.history = t :: earlier :=
      List.exists_cons_of_length_eq_add_one (travel_length hnone)
    have hrecord := getElem?_records_recordedBy hlt hhistory
    have hmachine := execute_within_recordedBy hlt
    have hstatus := s.travel_status none (m + 1)
    rw [hmachine, hexecute, Walk.outcome_machine, Walk.outcome_pos, Walk.outcome_steps,
      Walk.outcome_status (by exact hstatus)]
    exact ⟨rfl, rfl, travel_steps hnone, ⟨t.record, hrecord, s.travel_shows none hhistory⟩, rfl⟩
  · have hclosing := takesAll_traceWrites hroom
    have hwhole := Sink.accepting_default.takesAll (s.recordedBy {}).traceWrites
    refine ⟨?_, (traceBytes_recordedBy hclosing).trans (traceBytes_recordedBy hwhole).symm⟩
    rw [execute_recorded rfl hclosing, execute_recorded rfl hwhole]
    rfl

/-- Two codels between which a run goes to and fro, with one byte too few for its second record. -/
theorem trace_limit_stops_at_second_record : ∃ s : Setup,
    s.traceSize 2 = 226 ∧ (s.recordedBy {}).execute.records.length = 3 ∧
    (s.recordedBy (Sink.closing 225)).execute.error = some (.untraced (.step 2 "closed")) ∧
    (s.recordedBy (Sink.closing 225)).execute.state.steps = 2 ∧
    ∃ r, (s.recordedBy {}).execute.records[1]? = some r ∧
      r.Shows (s.recordedBy (Sink.closing 225)).execute.state.pos
        (s.recordedBy (Sink.closing 225)).execute.state.machine := by
  let s : Setup :=
    { program := { grid := Grid.ofFn 2 1 fun x _ => ⟨x⟩ }, run := RunId.nil, stepLimit := 4 }
  obtain ⟨_, hmisfit, _⟩ := trace_limit_stops_at_first_misfit s 225
  obtain ⟨herror, _, hsteps, hshows, _⟩ :=
    hmisfit (by decide +kernel) 2 (by decide +kernel) (by decide +kernel)
  exact ⟨s, by decide +kernel, by decide +kernel, herror, hsteps, hshows⟩

end Setup

end Codel
