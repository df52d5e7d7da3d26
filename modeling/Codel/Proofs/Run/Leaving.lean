import Codel.Proofs.Machine.OpCode
import Codel.Proofs.Run.Reach

namespace Codel

/-- How a run stands between two transitions. -/
structure Snapshot where
  pos : Pos
  dp : Direction
  cc : Chooser
  stack : Stack
deriving DecidableEq, Repr

namespace Snapshot

def outset : Snapshot := ⟨Pos.origin, Direction.right, Chooser.left, {}⟩

/-- How a run stands after its transitions so far, the latest first. -/
def after : List Transition → Snapshot
  | [] => outset
  | t :: _ => ⟨t.pos, t.dp, t.cc, t.stack⟩

end Snapshot

/-- A transition that leaves the block of the position it starts from. -/
structure Transition.Leaves (g : Grid) (v : Snapshot) (t : Transition) : Prop where
  inside : g.contains t.pos = true
  not_black : g.colourAt t.pos ≠ Colour.black
  not_mem : t.pos ∉ (g.blockAt v.pos).codels
  beyond : ∃ e ∈ (g.blockAt v.pos).codels,
    t.pos = e.step (g.navigate (g.blockAt v.pos).codels v.dp v.cc).dp
  colour_ne : g.colourAt t.pos ≠ g.colourAt v.pos
  op : t.instruction.op = OpCode.between (g.colourAt v.pos) (g.colourAt t.pos)
  op_none_iff : t.instruction.op = OpCode.none ↔
    (g.colourAt v.pos).isChromatic = false ∨ (g.colourAt t.pos).isChromatic = false

namespace RunState

variable {g : Grid} {s : RunState}

def snapshot (s : RunState) : Snapshot := ⟨s.pos, s.machine.dp, s.machine.cc, s.machine.stack⟩

/-- A way out that is closed leaves the run as it stood. -/
theorem snapshot_turn_of_blocked (ho : s.machine.Oriented) (h : (s.move g).blocked = true) :
    (s.turn (s.move g)).snapshot = s.snapshot := by
  obtain ⟨hdp, hcc⟩ := Grid.navigate_blocked ho.dp ho.cc h
  change (⟨s.pos, (s.move g).dp, (s.move g).cc, s.machine.stack⟩ : Snapshot) = s.snapshot
  unfold move snapshot
  rw [hdp, hcc]

theorem transition_leaves (set : InstructionSet) (ho : s.machine.Oriented)
    (h : (s.move g).blocked = false) : (s.transition g set).Leaves g s.snapshot := by
  have hbeyond := Grid.navigate_open (g := g) h
  obtain ⟨e, hexit, htarget, hinside, hblack⟩ := Grid.beyond?_eq_some hbeyond
  have hdp := (Grid.navigate_pointers (g := g) ho.dp ho.cc (g.blockAt s.pos).codels).1
  change g.contains (s.move g).target = true at hinside
  obtain ⟨hnot, hcolour⟩ := Grid.exit_step_leaves hdp hexit (htarget ▸ hinside)
  rw [← htarget] at hnot hcolour
  have hop : (s.instruction g).op =
    OpCode.between (g.colourAt s.pos) (g.colourAt (s.move g).target) := rfl
  refine ⟨hinside, hblack, hnot, ⟨e, hexit.mem, htarget⟩, hcolour, hop, ?_⟩
  change (s.instruction g).op = OpCode.none ↔ _
  rw [hop]
  exact OpCode.between_eq_none_iff (Ne.symm hcolour)

/-- What holds of the state of a run that has made `n` transitions. A run begins at the origin,
which is off the grid if there are no codels. -/
structure Allowed (g : Grid) (n : Nat) (s : RunState) : Prop where
  inside : g.contains s.pos = true ∨ (∀ p, g.contains p = false) ∧ s.pos = Pos.origin ∧ n = 0
  black : g.colourAt s.pos = Colour.black → s.pos = Pos.origin ∧ n = 0
  dp : s.machine.dp ∈ Direction.compass
  cc : s.machine.cc ∈ Chooser.both
  size : s.machine.stack.size ≤ n

theorem Allowed.congr {t : RunState} {n : Nat} (h : s.Allowed g n) (hpos : t.pos = s.pos)
    (hmachine : t.machine = s.machine) : t.Allowed g n := by
  refine ⟨?_, ?_, ?_, ?_, ?_⟩
  · exact hpos ▸ h.inside
  · exact hpos ▸ h.black
  · exact hmachine ▸ h.dp
  · exact hmachine ▸ h.cc
  · exact hmachine ▸ h.size

end RunState

/-- Each transition, the latest first, leaves the block in which the ones before it ended. -/
def Chained (g : Grid) : List Transition → Prop
  | [] => True
  | t :: earlier => t.Leaves g (Snapshot.after earlier) ∧ Chained g earlier

theorem Chained.leaves {g : Grid} {later earlier : List Transition} {t : Transition}
    (h : Chained g (later ++ t :: earlier)) : t.Leaves g (Snapshot.after earlier) := by
  induction later with
  | nil => exact h.1
  | cons _ later ih => exact ih h.2

theorem Grid.not_contains_of_origin {g : Grid} (h : g.contains Pos.origin = false) (p : Pos) :
    g.contains p = false := by
  rw [Bool.eq_false_iff] at h ⊢
  intro hp
  obtain ⟨⟨hx, hw⟩, hy, hh⟩ := contains_iff.mp hp
  have hzero : (Pos.origin.x.toInt = 0) ∧ Pos.origin.y.toInt = 0 := ⟨rfl, rfl⟩
  exact h (contains_iff.mpr (by omega))

namespace Walk

variable {g : Grid} {w : Walk g}

structure Sound (w : Walk g) : Prop where
  ready : w.Ready
  snapshot : w.state.snapshot = Snapshot.after w.history
  chained : Chained g w.history
  size : w.state.machine.stack.size ≤ w.history.length

theorem Sound.allowed (h : w.Sound) : w.state.Allowed g w.history.length := by
  have hsize := h.size
  have hsnapshot := h.snapshot
  have hchained := h.chained
  cases hhistory : w.history with
  | nil =>
    rw [hhistory] at hsnapshot hsize
    have hpos : w.state.pos = Pos.origin := congrArg Snapshot.pos hsnapshot
    refine ⟨?_, fun _ => ⟨hpos, rfl⟩, h.ready.oriented.dp, h.ready.oriented.cc, hsize⟩
    cases horigin : g.contains Pos.origin with
    | true => exact Or.inl (hpos ▸ horigin)
    | false => exact Or.inr ⟨Grid.not_contains_of_origin horigin, hpos, rfl⟩
  | cons t earlier =>
    rw [hhistory] at hsnapshot hsize hchained
    have hpos : w.state.pos = t.pos := congrArg Snapshot.pos hsnapshot
    refine ⟨Or.inl (hpos ▸ hchained.1.inside), ?_, h.ready.oriented.dp, h.ready.oriented.cc, hsize⟩
    intro hblack
    rw [hpos] at hblack
    exact absurd hblack hchained.1.not_black

theorem Sound.tick (h : w.Sound) : w.tick.Sound :=
  ⟨⟨h.ready.locator, h.ready.oriented⟩, h.snapshot, h.chained, h.size⟩

theorem Sound.begin (h : w.Sound) : w.begin.Sound :=
  ⟨h.ready.begin, h.snapshot, h.chained, h.size⟩

theorem Sound.advance (h : w.Sound) (set : InstructionSet) : (w.advance set).1.Sound := by
  have hready := h.ready.advance set
  rcases advance_cases set h.ready.locator h.ready.oriented with
    ⟨hblocked, heq⟩ | ⟨hopen, hstate, hhistory, _⟩
  · rw [heq] at hready ⊢
    have hkeep := RunState.snapshot_turn_of_blocked h.ready.oriented hblocked
    exact ⟨hready, hkeep.trans h.snapshot, h.chained, h.size⟩
  · have hleaves := RunState.transition_leaves set h.ready.oriented hopen
    have hgrow := InstructionSet.size_execute_le set (w.state.instruction g)
      (w.state.turn (w.state.move g)).machine
    rw [h.snapshot] at hleaves
    refine ⟨hready, ?_, ?_, ?_⟩
    · rw [hstate, hhistory]
      rfl
    · rw [hhistory]
      exact ⟨hleaves, h.chained⟩
    · rw [hstate, hhistory, List.length_cons]
      exact Nat.le_trans hgrow (Nat.add_le_add_right h.size 1)

end Walk

namespace Setup

variable {s : Setup} {trace : Option Sink} {w : Walk s.program.grid}

theorem outset_sound (s : Setup) (trace : Option Sink) : (s.outset trace).Sound :=
  ⟨s.outset_ready trace, rfl, trivial, Nat.le_refl 0⟩

theorem Visits.sound (h : Visits s trace w) : w.Sound :=
  h.invariant (s.outset_sound trace) (fun _ hw => hw.tick) fun _ hw => hw.begin.advance _

/-- Every transition leaves its block, and every state of a run is allowed. -/
theorem every_transition_leaves_its_block (s : Setup) :
    (∀ earlier t later, s.execute.transitions = earlier ++ t :: later →
      t.Leaves s.program.grid (Snapshot.after earlier.reverse)) ∧
    (∀ trace w, Visits s trace w → w.state.Allowed s.program.grid w.history.length) ∧
    s.execute.state.Allowed s.program.grid s.execute.transitions.length := by
  obtain ⟨trace, w, hvisits, hpos, hmachine, htransitions⟩ := s.execute_visits
  refine ⟨?_, fun _ _ h => h.sound.allowed, ?_⟩
  · intro earlier t later heq
    have hhistory : w.history = later.reverse ++ t :: earlier.reverse := by
      have := congrArg List.reverse (htransitions.symm.trans heq)
      simpa using this
    have hchained := hvisits.sound.chained
    rw [hhistory] at hchained
    exact hchained.leaves
  · rw [htransitions, List.length_reverse]
    exact hvisits.sound.allowed.congr hpos hmachine

/-- A picture whose corners both stand the wrong way round gives a program that is accepted though
it has no codels, so its runs begin off the grid. -/
theorem outset_off_grid : ∃ s : Setup,
    Program.ofRaster (Raster.between 3 3 1 1 #[]) 1 = .ok s.program ∧
    Setup.nonempty (some s.program) = .ok s.program ∧
    ∃ w, Visits s none w ∧ s.program.grid.contains w.state.pos = false :=
  ⟨{ program :=
      { grid := Grid.ofFn (-2) (-2) fun x y =>
          ((Raster.between 3 3 1 1 #[]).pixel (3 + x * 1) (3 + y * 1)).colour
        codelSize := 1 }
     run := RunId.nil },
    rfl, rfl, _, .head .start, by decide⟩

end Setup

end Codel
