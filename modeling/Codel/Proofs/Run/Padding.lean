import Codel.Proofs.Run.Leaving
import Codel.Proofs.Run.Likeness
import Codel.Run.Report

namespace Codel

namespace Grid

variable {g : Grid} {p : Pos} {right below : Nat}

/-- The colour in column `x` and row `y`, if the grid has that codel. -/
def codel? (g : Grid) (x y : Nat) : Option Colour :=
  if h : x < g.width.toNat ∧ y < g.height.toNat then
    some (g.codels.get ⟨y * g.width.toNat + x, row_index_lt h.1 h.2⟩)
  else none

/-- The grid with black columns added on its right and black rows added below. -/
def pad (right below : Nat) (g : Grid) : Grid :=
  ofFn (g.width + right) (g.height + below) fun x y => (g.codel? x y).getD Colour.black

theorem codel?_of_contains (hp : g.contains p = true) :
    g.codel? p.x.toInt.toNat p.y.toInt.toNat = some (g.colourAt p) := by
  obtain ⟨⟨_, hx⟩, _, hy⟩ := contains_iff.mp hp
  obtain ⟨i, hi⟩ := contains_iff_index?.mp hp
  have hval := index?_val hi
  unfold codel?
  rw [dif_pos ⟨by omega, by omega⟩, colourAt_of_index? hi]
  congr 2
  exact Fin.ext hval.symm

theorem codel?_of_not_contains (hp : g.contains p = false) (hx : 0 ≤ p.x.toInt)
    (hy : 0 ≤ p.y.toInt) : g.codel? p.x.toInt.toNat p.y.toInt.toNat = none := by
  have hout : ¬ ((0 ≤ p.x.toInt ∧ p.x.toInt < g.width) ∧ 0 ≤ p.y.toInt ∧ p.y.toInt < g.height) := by
    rw [← contains_iff, hp]
    exact Bool.false_ne_true
  unfold codel?
  rw [dif_neg]
  omega

theorem colourAt_ofFn {width height : Int} {f : Nat → Nat → Colour}
    (hp : (ofFn width height f).contains p = true) :
    (ofFn width height f).colourAt p = f p.x.toInt.toNat p.y.toInt.toNat := by
  obtain ⟨⟨hx, hwidth⟩, _⟩ := contains_iff.mp hp
  obtain ⟨i, hi⟩ := contains_iff_index?.mp hp
  have hval : i.val = p.y.toInt.toNat * width.toNat + p.x.toInt.toNat := index?_val hi
  have hlt : p.x.toInt.toNat < width.toNat := by
    change p.x.toInt < width at hwidth
    omega
  have hcolumn : i.val % width.toNat = p.x.toInt.toNat := by
    rw [hval, Nat.mul_add_mod_self_right, Nat.mod_eq_of_lt hlt]
  have hrow : i.val / width.toNat = p.y.toInt.toNat := by
    rw [hval, Nat.add_comm, Nat.add_mul_div_right _ _ (by omega), Nat.div_eq_of_lt hlt,
      Nat.zero_add]
  rw [colourAt_of_index? hi, ← hcolumn, ← hrow]
  exact Vector.getElem_ofFn i.isLt

theorem contains_pad (right below : Nat) (hp : g.contains p = true) :
    (g.pad right below).contains p = true := by
  obtain ⟨⟨hx, hwidth⟩, hy, hheight⟩ := contains_iff.mp hp
  refine contains_iff.mpr ⟨⟨hx, ?_⟩, hy, ?_⟩
  · change p.x.toInt < g.width + right
    omega
  · change p.y.toInt < g.height + below
    omega

theorem colourAt_pad (hp : g.contains p = true) :
    (g.pad right below).colourAt p = g.colourAt p := by
  have hcolour := colourAt_ofFn (contains_pad right below hp)
  rwa [codel?_of_contains hp] at hcolour

theorem colourAt_pad_outside (hp : g.contains p = false)
    (hpad : (g.pad right below).contains p = true) :
    (g.pad right below).colourAt p = Colour.black := by
  obtain ⟨⟨hx, _⟩, hy, _⟩ := contains_iff.mp hpad
  have hcolour := colourAt_ofFn hpad
  rwa [codel?_of_not_contains hp hx hy] at hcolour

theorem contains_of_open_pad (h : (g.pad right below).Open p) : g.contains p = true := by
  by_contra hout
  exact h.2 (colourAt_pad_outside (Bool.eq_false_iff.mpr hout) h.1)

theorem open_pad_iff : (g.pad right below).Open p ↔ g.Open p := by
  constructor
  · intro h
    have hp := contains_of_open_pad h
    exact ⟨hp, colourAt_pad hp ▸ h.2⟩
  · intro h
    exact ⟨contains_pad _ _ h.1, (colourAt_pad h.1).symm ▸ h.2⟩

/-- Seen from a codel that is not black, the black codels around a grid are no codels of its region
and no ways out of it. -/
theorem likeness_pad (g : Grid) (right below : Nat) :
    g.Likeness id g.Open (g.pad right below) where
  open_iff _ := open_pad_iff
  covers _ hp := hp
  colour _ hp := colourAt_pad hp.1
  fits_iff s hs p := by
    rw [colourAt_pad hs.1]
    constructor
    · rintro ⟨hp, hcolour⟩
      have hopen : (g.pad right below).Open p := ⟨hp, hcolour ▸ hs.2⟩
      have hin := contains_of_open_pad hopen
      exact ⟨hin, (colourAt_pad hin).symm.trans hcolour⟩
    · rintro ⟨hp, hcolour⟩
      exact ⟨contains_pad _ _ hp, (colourAt_pad hp).trans hcolour⟩
  delta _ _ := rfl

end Grid

theorem Outcome.Alike.transitions_eq {o o' : Outcome} (h : o.Alike id o') :
    o'.transitions = o.transitions := h.transitions.trans (List.map_id _)

namespace Setup

variable {s : Setup} {g : Grid}

/-- Of the notes of a run only the entry at its beginning shows the size of the grid. -/
theorem debugText_onGrid {o o' : Outcome} (h : o.Alike id o') (debug : Bool) :
    debugText ((s.onGrid g).notes debug o') = debugText (s.notes debug o) := by
  unfold notes
  rw [h.ending, h.state, h.transitions_eq]
  split
  · rfl
  · rfl

theorem alike_pad (hstart : s.program.grid.colourAt Pos.origin ≠ Colour.black)
    (right below : Nat) :
    ∃ Q, s.Alike id Q (s.onGrid (s.program.grid.pad right below)) := by
  cases horigin : s.program.grid.contains Pos.origin with
  | true =>
    have hopen : s.program.grid.Open Pos.origin := ⟨horigin, hstart⟩
    have hlike := s.program.grid.likeness_pad right below
    exact ⟨_, alike_onGrid (Walk.inStep_of_likeness hlike s.instructions) hopen⟩
  | false =>
    -- A grid without a codel to begin on has none, and padding adds none that can be entered.
    have hclosed : ∀ p, ¬ s.program.grid.Open p := by
      intro p hp
      have hout := Grid.not_contains_of_origin horigin p
      exact Bool.false_ne_true (hout.symm.trans hp.1)
    have hclosed' : ∀ p, ¬ (s.program.grid.pad right below).Open p :=
      fun p hp => hclosed p (Grid.open_pad_iff.mp hp)
    have hstep := Walk.inStep_of_closed hclosed hclosed' id (fun _ => True) s.instructions
    exact ⟨_, alike_onGrid hstep trivial⟩

/-- A run over the grid with black columns and rows added comes to the same state, with the same
error, and records and shows the same transitions. As a trace begins with the size of the grid, one of
limited room must have it for as many records after either. -/
theorem outside_is_as_black (s : Setup) (right below : Nat)
    (hstart : s.program.grid.colourAt Pos.origin ≠ Colour.black) :
    let s' := s.onGrid (s.program.grid.pad right below)
    (s.Heedless → s.TracedAsFar s') ∧
    (s.TracedAsFar s' →
      s'.execute.state = s.execute.state ∧
      s'.execute.error = s.execute.error ∧
      s'.execute.records = s.execute.records ∧
      ∀ debug, debugText (s'.notes debug s'.execute) = debugText (s.notes debug s.execute)) := by
  intro s'
  obtain ⟨Q, hruns⟩ : ∃ Q, s.Alike id Q s' := alike_pad hstart right below
  refine ⟨hruns.tracedAsFar, fun htrace => ?_⟩
  have halike := hruns.execute htrace
  refine ⟨halike.state, halike.error, ?_, fun debug => debugText_onGrid halike debug⟩
  exact congrArg (List.map Transition.record) halike.transitions_eq

/-- Two codels, and the same with a black column beside them and two black rows below. The trace has
room for one record, so both runs are stopped at the second. -/
theorem outside_is_as_black_to_and_fro :
    let s := toAndFro 170 4
    let s' := s.onGrid (s.program.grid.pad 1 2)
    s.program.grid.colourAt Pos.origin ≠ Colour.black ∧
    s'.program.grid.rows = [[⟨0⟩, ⟨1⟩, .black], [.black, .black, .black],
      [.black, .black, .black]] ∧
    s.TracedAsFar s' ∧ s.execute.error = some (.untraced (.step 2 "closed")) ∧
    s.execute.records.length = 2 ∧ s'.execute.records = s.execute.records ∧
    s'.execute.state = s.execute.state ∧ s'.execute.error = s.execute.error ∧
    debugText (s'.notes true s'.execute) = debugText (s.notes true s.execute) := by
  intro s s'
  have hstart : s.program.grid.colourAt Pos.origin ≠ Colour.black := by decide
  have htrace : s.TracedAsFar s' := by
    rintro k ⟨⟩
    decide +kernel
  obtain ⟨hstate, herror, hrecords, hdebug⟩ := (outside_is_as_black s 1 2 hstart).2 htrace
  exact ⟨hstart, by decide +kernel, htrace, by decide +kernel, by decide +kernel, hrecords, hstate,
    herror, hdebug true⟩

/-- A width of 128 takes one byte more in the trace than a width of 2, and so the last record may not
fit. -/
theorem width_of_the_outside_matters :
    let s := toAndFro 226 3
    let s' := s.onGrid (s.program.grid.pad 126 0)
    s.program.grid.colourAt Pos.origin ≠ Colour.black ∧
    s.execute.error = none ∧ s.execute.state.status = .stepLimit ∧
    s'.execute.error = some (.untraced (.step 2 "closed")) ∧ s'.execute.state.status = .exit :=
  ⟨by decide, by decide +kernel, by decide +kernel, by decide +kernel, by decide +kernel⟩

end Setup

end Codel
