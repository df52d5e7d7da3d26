import Codel.Proofs.Machine.OpCode
import Codel.Proofs.Run.Likeness

namespace Codel

namespace Colour

variable {c d : Colour} {h l : Int}

/-- A colour moved round both cycles by any whole numbers. -/
def turn (h l : Int) : Colour → Colour :=
  shift (Fin.ofNat 6 (h % 6).toNat) (Fin.ofNat 3 (l % 3).toNat)

theorem turn_of_none (hc : c.cycle? = none) : c.turn h l = c := by
  unfold turn shift
  rw [hc]

theorem cycle?_turn {a : Fin 6} {b : Fin 3} (hc : c.cycle? = some (a, b)) :
    ∃ (a' : Fin 6) (b' : Fin 3), (c.turn h l).cycle? = some (a', b') ∧
      (a'.val : Int) = (a.val + h) % 6 ∧ (b'.val : Int) = (b.val + l) % 3 := by
  refine ⟨a + Fin.ofNat 6 (h % 6).toNat, b + Fin.ofNat 3 (l % 3).toNat, ?_, ?_, ?_⟩
  · unfold turn shift
    rw [hc]
    exact cycle?_ofHue _ _
  · rw [Fin.val_add, Fin.val_ofNat]
    omega
  · rw [Fin.val_add, Fin.val_ofNat]
    omega

theorem delta?_turn (c d : Colour) (h l : Int) : (c.turn h l).delta? (d.turn h l) = c.delta? d := by
  cases hc : c.cycle? with
  | none =>
    rw [turn_of_none hc]
    simp [delta?, hc]
  | some v =>
    obtain ⟨a, b⟩ := v
    obtain ⟨a', b', hc', ha, hb⟩ := cycle?_turn (h := h) (l := l) hc
    cases hd : d.cycle? with
    | none =>
      rw [turn_of_none hd]
      simp [delta?, hd]
    | some v =>
      obtain ⟨x, y⟩ := v
      obtain ⟨x', y', hd', hx, hy⟩ := cycle?_turn (h := h) (l := l) hd
      have hhue : x' - a' = x - a := by
        apply Fin.ext
        rw [Fin.sub_def, Fin.sub_def]
        dsimp only
        omega
      have hlight : y' - b' = y - b := by
        apply Fin.ext
        rw [Fin.sub_def, Fin.sub_def]
        dsimp only
        omega
      simp [delta?, hc, hd, hc', hd', hhue, hlight]

theorem turn_injective (h l : Int) : Function.Injective (turn h l) := by
  intro c d heq
  have hcycle := congrArg cycle? heq
  cases hc : c.cycle? with
  | none =>
    cases hd : d.cycle? with
    | none => rwa [turn_of_none hc, turn_of_none hd] at heq
    | some v =>
      obtain ⟨_, _, hd', _⟩ := cycle?_turn (h := h) (l := l) hd
      rw [turn_of_none hc, hc, hd'] at hcycle
      simp at hcycle
  | some v =>
    obtain ⟨a', b', hc', ha, hb⟩ := cycle?_turn (h := h) (l := l) hc
    cases hd : d.cycle? with
    | none =>
      rw [turn_of_none hd, hd, hc'] at hcycle
      simp at hcycle
    | some u =>
      obtain ⟨x', y', hd', hx, hy⟩ := cycle?_turn (h := h) (l := l) hd
      rw [hc', hd', Option.some.injEq, Prod.mk.injEq] at hcycle
      obtain ⟨rfl, rfl⟩ := hcycle
      have hhue : v.1 = u.1 := Fin.ext (by omega)
      have hlight : v.2 = u.2 := Fin.ext (by omega)
      have huv : u = v := Prod.ext hhue.symm hlight.symm
      exact eq_of_cycle? hc (huv ▸ hd)

end Colour

namespace Grid

variable {f : Colour → Colour} {p : Pos}

/-- The grid with the colour of every codel changed. -/
def recolour (f : Colour → Colour) (g : Grid) : Grid := ⟨g.width, g.height, g.codels.map f⟩

theorem contains_recolour (f : Colour → Colour) (g : Grid) (p : Pos) :
    (g.recolour f).contains p = g.contains p := rfl

theorem colourAt_recolour (hf : f Colour.unknown = Colour.unknown) (g : Grid) (p : Pos) :
    (g.recolour f).colourAt p = f (g.colourAt p) := by
  cases hp : g.contains p with
  | false => rw [colourAt_of_not_contains hp, hf, colourAt_of_not_contains (g := g.recolour f) hp]
  | true =>
    obtain ⟨i, hi⟩ := contains_iff_index?.mp hp
    rw [colourAt_of_index? hi, colourAt_of_index? (g := g.recolour f) hi]
    exact Vector.getElem_map f i.isLt

/-- Other colours for all codels change neither regions nor ways out, as long as different colours
stay different and black stays black. -/
theorem likeness_recolour (g : Grid) (hinj : Function.Injective f)
    (hblack : f Colour.black = Colour.black) (hunknown : f Colour.unknown = Colour.unknown)
    (hdelta : ∀ c d, (f c).delta? (f d) = c.delta? d) :
    g.Likeness f (fun _ => True) (g.recolour f) where
  open_iff p := by
    have hiff : f (g.colourAt p) = Colour.black ↔ g.colourAt p = Colour.black := by
      nth_rewrite 1 [← hblack]
      exact hinj.eq_iff
    unfold Open
    rw [contains_recolour, colourAt_recolour hunknown, ne_eq, hiff]
  covers _ _ := trivial
  colour p _ := colourAt_recolour hunknown g p
  fits_iff s _ p := by
    unfold Fits
    rw [contains_recolour, colourAt_recolour hunknown, colourAt_recolour hunknown, hinj.eq_iff]
  delta := hdelta

theorem likeness_turn (g : Grid) (h l : Int) :
    g.Likeness (Colour.turn h l) (fun _ => True) (g.recolour (Colour.turn h l)) :=
  g.likeness_recolour (Colour.turn_injective h l) (Colour.turn_of_none rfl)
    (Colour.turn_of_none rfl) fun c d => c.delta?_turn d h l

end Grid

/-- Records that differ in their colour at most. -/
def Trace.Step.SameButColour (r r' : Trace.Step) : Prop := r' = { r with colour := r'.colour }

theorem Outcome.Alike.records {f : Colour → Colour} {o o' : Outcome} (h : o.Alike f o') :
    List.Forall₂ Trace.Step.SameButColour o.records o'.records := by
  unfold Outcome.records
  rw [h.transitions, List.map_map, List.forall₂_map_left_iff, List.forall₂_map_right_iff,
    List.forall₂_same]
  intro t _
  rfl

namespace Setup

/-- A run over the grid whose chromatic colours are all turned by the same amounts comes to the same
state, with the same error, and its transitions and trace records differ in colours only. As names of
colours differ in length, a trace of limited room must have it for as many records of either. -/
theorem only_differences_of_colours_matter (s : Setup) (h l : Int) :
    let s' := s.onGrid (s.program.grid.recolour (Colour.turn h l))
    (s.Heedless → s.TracedAsFar s') ∧
    (s.TracedAsFar s' →
      s'.execute.state = s.execute.state ∧
      s'.execute.error = s.execute.error ∧
      s'.execute.transitions = s.execute.transitions.map (Transition.recolour (Colour.turn h l)) ∧
      List.Forall₂ Trace.Step.SameButColour s.execute.records s'.execute.records) := by
  intro s'
  have hstep := Walk.inStep_of_likeness (s.program.grid.likeness_turn h l) s.instructions
  have hruns : s.Alike (Colour.turn h l) (fun _ => True) s' := alike_onGrid hstep trivial
  refine ⟨hruns.tracedAsFar, fun htrace => ?_⟩
  have halike := hruns.execute htrace
  exact ⟨halike.state, halike.error, halike.transitions, halike.records⟩

/-- Two codels, and their colours one hue back and two lightnesses on. The trace has room for one record
of either run, so both are stopped at the second. -/
theorem only_differences_of_colours_matter_to_and_fro :
    let s := toAndFro 170 4
    let s' := s.onGrid (s.program.grid.recolour (Colour.turn (-1) 2))
    s.TracedAsFar s' ∧
    s.execute.records.map Trace.Step.colour =
      [Bytes.ofString "Red", Bytes.ofString "LightRed"] ∧
    s'.execute.records.map Trace.Step.colour =
      [Bytes.ofString "LightMagenta", Bytes.ofString "DarkMagenta"] ∧
    s.execute.error = some (.untraced (.step 2 "closed")) ∧
    s'.execute.state = s.execute.state ∧ s'.execute.error = s.execute.error ∧
    List.Forall₂ Trace.Step.SameButColour s.execute.records s'.execute.records := by
  intro s s'
  have htrace : s.TracedAsFar s' := by
    rintro k ⟨⟩
    decide +kernel
  obtain ⟨hstate, herror, _, hrecords⟩ := (only_differences_of_colours_matter s (-1) 2).2 htrace
  exact ⟨htrace, by decide +kernel, by decide +kernel, by decide +kernel, hstate, herror, hrecords⟩

/-- With room for two records of one of these runs, the other one is stopped where it is not. -/
theorem lengths_of_colour_names_matter :
    let s := toAndFro 226 3
    let s' := s.onGrid (s.program.grid.recolour (Colour.turn (-1) 2))
    s.execute.error = none ∧ s.execute.state.status = .stepLimit ∧
    s'.execute.error = some (.untraced (.step 2 "closed")) ∧ s'.execute.state.status = .exit :=
  ⟨by decide +kernel, by decide +kernel, by decide +kernel, by decide +kernel⟩

end Setup

end Codel
