import Codel.Proofs.Grid.Navigation
import Codel.Machine.OpCode

namespace Codel

namespace Grid

variable {f : Colour → Colour} {Q : Pos → Prop} {g g' : Grid} {p s : Pos} {ps : List Pos}
  {d : Direction} {c : Chooser}

/-- A codel that can be entered. -/
def Open (g : Grid) (p : Pos) : Prop := g.contains p = true ∧ g.colourAt p ≠ Colour.black

/-- From the positions of `Q`, the grid `g'` looks like `g` with its colours changed by `f`. -/
structure Likeness (f : Colour → Colour) (Q : Pos → Prop) (g g' : Grid) : Prop where
  open_iff : ∀ p, g'.Open p ↔ g.Open p
  covers : ∀ p, g.Open p → Q p
  colour : ∀ p, Q p → g'.colourAt p = f (g.colourAt p)
  /-- Codels have the colour of `s` in both grids or in neither. -/
  fits_iff : ∀ s, Q s → ∀ p, g'.Fits (g'.colourAt s) p ↔ g.Fits (g.colourAt s) p
  delta : ∀ c d, (f c).delta? (f d) = c.delta? d

theorem Path.of_fits {c c' : Colour} {n : Nat} (h : ∀ p, g.Fits c p → g'.Fits c' p)
    (hpath : g.Path c s p n) : g'.Path c' s p n := by
  induction hpath with
  | start hs => exact .start (h _ hs)
  | step _ hadj hq ih => exact ih.step hadj (h _ hq)

/-- What a try sees of a grid is which codels can be entered. -/
theorem beyond?_congr (h : ∀ p, g'.Open p ↔ g.Open p) : g'.beyond? ps d c = g.beyond? ps d c := by
  unfold beyond?
  split
  next => rfl
  next e _ => exact if_congr (h (e.step d)) rfl rfl

theorem navigateFrom_congr (h : ∀ p, g'.Open p ↔ g.Open p) (left attempt : Nat) :
    g'.navigateFrom ps left attempt d c = g.navigateFrom ps left attempt d c := by
  induction left generalizing attempt d c with
  | zero => rfl
  | succ left ih =>
    unfold navigateFrom
    rw [beyond?_congr h, ih]

theorem navigate_congr (h : ∀ p, g'.Open p ↔ g.Open p) :
    g'.navigate ps d c = g.navigate ps d c := by
  unfold navigate
  rw [navigateFrom_congr h]

theorem open_navigate (h : (g.navigate ps d c).blocked = false) :
    g.Open (g.navigate ps d c).target := by
  obtain ⟨_, _, _, hcontains, hcolour⟩ := beyond?_eq_some (navigate_open h)
  exact ⟨hcontains, hcolour⟩

namespace Likeness

theorem connected_iff (h : Likeness f Q g g') (hs : Q s) : g'.Connected s p ↔ g.Connected s p := by
  constructor
  · rintro ⟨n, hpath⟩
    exact ⟨n, hpath.of_fits fun q => (h.fits_iff s hs q).mp⟩
  · rintro ⟨n, hpath⟩
    exact ⟨n, hpath.of_fits fun q => (h.fits_iff s hs q).mpr⟩

/-- So a block has the same codels, though the grids may list them in another order. -/
theorem blockAt_perm (h : Likeness f Q g g') (hs : Q s) :
    (g'.blockAt s).codels.Perm (g.blockAt s).codels := by
  apply (List.perm_ext_iff_of_nodup (blockAt_nodup g' s) (blockAt_nodup g s)).mpr
  intro p
  rw [mem_blockAt_iff, mem_blockAt_iff]
  exact h.connected_iff hs

theorem navigate_blockAt (h : Likeness f Q g g') (hs : Q s) (hc : c ∈ Chooser.both) :
    g'.navigate (g'.blockAt s).codels d c = g.navigate (g.blockAt s).codels d c := by
  rw [navigate_perm hc (h.blockAt_perm hs)]
  exact navigate_congr h.open_iff

theorem between_blockAt (h : Likeness f Q g g') (hs : Q s) (hp : Q p) :
    Instruction.between (g'.blockAt s) (g'.blockAt p) =
      Instruction.between (g.blockAt s) (g.blockAt p) := by
  have hsize : (g'.blockAt s).size = (g.blockAt s).size := (h.blockAt_perm hs).length_eq
  have hdelta : (g'.blockAt s).colour.delta? (g'.blockAt p).colour =
      (g.blockAt s).colour.delta? (g.blockAt p).colour := by
    rw [blockAt_colour, blockAt_colour, h.colour s hs, h.colour p hp]
    exact h.delta _ _
  unfold Instruction.between OpCode.between
  rw [hsize, hdelta]

end Likeness

end Grid

end Codel
