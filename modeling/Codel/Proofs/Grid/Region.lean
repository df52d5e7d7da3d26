import Codel.Grid.Block
import Mathlib.Order.Lattice.Nat

namespace Codel

theorem toInt_add_one {a : Int64} (h : a.toInt + 1 < 2 ^ 63) : (a + 1).toInt = a.toInt + 1 := by
  have := a.le_toInt
  rw [Int64.toInt_add, Int64.toInt_one, Int.bmod_eq_of_le] <;> omega

theorem toInt_sub_one {a : Int64} (h : 0 ≤ a.toInt) : (a - 1).toInt = a.toInt - 1 := by
  have := a.toInt_lt
  rw [Int64.toInt_sub, Int64.toInt_one, Int.bmod_eq_of_le] <;> omega

/-- The coordinate after the greatest one is negative, so a step that stays on a grid cannot have
gone round. -/
theorem toInt_add_one_of_nonneg {a : Int64} (h : 0 ≤ (a + 1).toInt) :
    (a + 1).toInt = a.toInt + 1 := by
  apply toInt_add_one
  have hlt := a.toInt_lt
  by_contra hn
  have hmax : a = Int64.maxValue := Int64.toInt.inj (by rw [Int64.toInt_maxValue]; omega)
  subst hmax
  exact absurd h (by decide)

namespace Pos

theorem eq_of_toInt {p q : Pos} (hx : p.x.toInt = q.x.toInt) (hy : p.y.toInt = q.y.toInt) :
    p = q := by
  cases p
  cases q
  simp only [mk.injEq]
  exact ⟨Int64.toInt.inj hx, Int64.toInt.inj hy⟩

@[simp] theorem step_right (p : Pos) : p.step .right = ⟨p.x + 1, p.y⟩ := rfl
@[simp] theorem step_down (p : Pos) : p.step .down = ⟨p.x, p.y + 1⟩ := rfl
@[simp] theorem step_left (p : Pos) : p.step .left = ⟨p.x - 1, p.y⟩ := rfl
@[simp] theorem step_up (p : Pos) : p.step .up = ⟨p.x, p.y - 1⟩ := rfl

/-- Side by side in a row or one below the other in a column. -/
def Adjacent (p q : Pos) : Prop :=
  (p.x.toInt - q.x.toInt).natAbs + (p.y.toInt - q.y.toInt).natAbs = 1

theorem Adjacent.symm {p q : Pos} (h : p.Adjacent q) : q.Adjacent p := by
  unfold Adjacent at *
  omega

theorem mem_neighbours_iff {p q : Pos} :
    q ∈ p.neighbours ↔ ∃ d ∈ Direction.compass, q = p.step d := by
  simp only [neighbours, Direction.compass, List.mem_cons, List.not_mem_nil, or_false,
    exists_eq_or_imp, exists_eq_left]
  tauto

end Pos

namespace Grid

variable {g : Grid} {p q r s : Pos} {c : Colour} {m n : Nat}

theorem contains_iff : g.contains p = true ↔
    (0 ≤ p.x.toInt ∧ p.x.toInt < g.width) ∧ 0 ≤ p.y.toInt ∧ p.y.toInt < g.height := by
  unfold contains index?
  split <;> simp_all

theorem contains_iff_index? : g.contains p = true ↔ ∃ i, g.index? p = some i :=
  Option.isSome_iff_exists

theorem index?_eq_none (h : g.contains p = false) : g.index? p = none :=
  Option.isSome_eq_false_iff.mp h |> Option.isNone_iff_eq_none.mp

theorem contains_of_index? {i : Fin g.size} (h : g.index? p = some i) : g.contains p = true :=
  contains_iff_index?.mpr ⟨i, h⟩

theorem index?_val {i : Fin g.size} (h : g.index? p = some i) :
    i.val = p.y.toInt.toNat * g.width.toNat + p.x.toInt.toNat := by
  unfold index? at h
  split at h
  · cases Option.some.inj h
    rfl
  · simp at h

/-- Different codels are stored at different places. -/
theorem index?_inj {i : Fin g.size} (hp : g.index? p = some i) (hq : g.index? q = some i) :
    p = q := by
  have hpc := contains_iff.mp (contains_of_index? hp)
  have hqc := contains_iff.mp (contains_of_index? hq)
  have hval := (index?_val hp).symm.trans (index?_val hq)
  have hpx : p.x.toInt.toNat < g.width.toNat := by omega
  have hqx : q.x.toInt.toNat < g.width.toNat := by omega
  have hx : p.x.toInt.toNat = q.x.toInt.toNat := by
    have hmod := congrArg (· % g.width.toNat) hval
    simpa only [Nat.mul_add_mod_self_right, Nat.mod_eq_of_lt hpx, Nat.mod_eq_of_lt hqx] using hmod
  have hy : p.y.toInt.toNat = q.y.toInt.toNat := by
    rw [hx] at hval
    exact Nat.eq_of_mul_eq_mul_right (by omega) (Nat.add_right_cancel hval)
  exact Pos.eq_of_toInt (by omega) (by omega)

theorem colourAt_of_index? {i : Fin g.size} (h : g.index? p = some i) :
    g.colourAt p = g.codels.get i := by
  unfold colourAt
  rw [h]
  rfl

theorem colourAt_of_not_contains (h : g.contains p = false) : g.colourAt p = Colour.unknown := by
  unfold colourAt
  rw [index?_eq_none h]

/-- Inside a grid no step goes round, so neighbours are the adjacent codels. -/
theorem mem_neighbours_iff_adjacent (hp : g.contains p = true) (hq : g.contains q = true) :
    q ∈ p.neighbours ↔ p.Adjacent q := by
  obtain ⟨⟨hpx, _⟩, hpy, _⟩ := contains_iff.mp hp
  obtain ⟨⟨hqx, _⟩, hqy, _⟩ := contains_iff.mp hq
  have hx := q.x.toInt_lt
  have hy := q.y.toInt_lt
  simp only [Pos.neighbours, Pos.step_right, Pos.step_left, Pos.step_down, Pos.step_up,
    List.mem_cons, List.not_mem_nil, or_false]
  unfold Pos.Adjacent
  constructor
  · rintro (rfl | rfl | rfl | rfl)
    · simp only [toInt_add_one_of_nonneg hqx]
      omega
    · simp only [toInt_sub_one hpx]
      omega
    · simp only [toInt_add_one_of_nonneg hqy]
      omega
    · simp only [toInt_sub_one hpy]
      omega
  · intro h
    have hcases : (q.x.toInt = p.x.toInt + 1 ∧ q.y.toInt = p.y.toInt) ∨
        (q.x.toInt = p.x.toInt - 1 ∧ q.y.toInt = p.y.toInt) ∨
        (q.x.toInt = p.x.toInt ∧ q.y.toInt = p.y.toInt + 1) ∨
        (q.x.toInt = p.x.toInt ∧ q.y.toInt = p.y.toInt - 1) := by omega
    rcases hcases with ⟨h1, h2⟩ | ⟨h1, h2⟩ | ⟨h1, h2⟩ | ⟨h1, h2⟩
    · exact Or.inl (Pos.eq_of_toInt (by rw [toInt_add_one (by omega)]; exact h1) h2)
    · exact Or.inr (Or.inl (Pos.eq_of_toInt (by rw [toInt_sub_one hpx]; exact h1) h2))
    · exact Or.inr (Or.inr (Or.inl
        (Pos.eq_of_toInt h1 (by rw [toInt_add_one (by omega)]; exact h2))))
    · exact Or.inr (Or.inr (Or.inr
        (Pos.eq_of_toInt h1 (by rw [toInt_sub_one hpy]; exact h2))))

/-- A codel of the given colour. -/
def Fits (g : Grid) (c : Colour) (p : Pos) : Prop := g.contains p = true ∧ g.colourAt p = c

/-- A way of `n` orthogonal steps inside the grid, all of whose codels have the colour `c`. -/
inductive Path (g : Grid) (c : Colour) (s : Pos) : Pos → Nat → Prop
  | start : g.Fits c s → Path g c s s 0
  | step {p q : Pos} {n : Nat} : Path g c s p n → p.Adjacent q → g.Fits c q → Path g c s q (n + 1)

/-- Joined to a codel by a path of its own colour. -/
def Connected (g : Grid) (s p : Pos) : Prop := ∃ n, g.Path (g.colourAt s) s p n

/-- The length of the shortest path of a codel's own colour to another. -/
noncomputable def distance (g : Grid) (s p : Pos) : Nat := sInf {n | g.Path (g.colourAt s) s p n}

theorem Path.fits (h : g.Path c s p n) : g.Fits c p := by
  cases h with
  | start hs => exact hs
  | step _ _ hp => exact hp

theorem Path.fits_start (h : g.Path c s p n) : g.Fits c s := by
  induction h with
  | start hs => exact hs
  | step _ _ _ ih => exact ih

theorem Path.trans (hs : g.Path c s p m) (hp : g.Path c p q n) : g.Path c s q (m + n) := by
  induction hp with
  | start _ => exact hs
  | step _ hadj hfits ih => exact ih.step hadj hfits

theorem Path.symm (h : g.Path c s p n) : g.Path c p s n := by
  induction h with
  | start hs => exact .start hs
  | @step p q n hp hadj hfits ih =>
    have hfirst : g.Path c q p 1 := (Path.start hfits).step hadj.symm hp.fits
    simpa [Nat.add_comm] using hfirst.trans ih

theorem Connected.contains (h : g.Connected s p) : g.contains p = true := by
  obtain ⟨_, hp⟩ := h
  exact hp.fits.1

theorem Connected.colourAt_eq (h : g.Connected s p) : g.colourAt p = g.colourAt s := by
  obtain ⟨_, hp⟩ := h
  exact hp.fits.2

theorem Connected.symm (h : g.Connected s p) : g.Connected p s := by
  have hc := h.colourAt_eq
  obtain ⟨n, hp⟩ := h
  exact ⟨n, hc ▸ hp.symm⟩

theorem Connected.trans (hs : g.Connected s p) (hp : g.Connected p q) : g.Connected s q := by
  have hc := hs.colourAt_eq
  obtain ⟨m, hm⟩ := hs
  obtain ⟨n, hn⟩ := hp
  exact ⟨m + n, hm.trans (hc ▸ hn)⟩

theorem Connected.step (hs : g.Connected s p) (hadj : p.Adjacent q) (hq : g.contains q = true)
    (hc : g.colourAt q = g.colourAt s) : g.Connected s q := by
  obtain ⟨n, hp⟩ := hs
  exact ⟨n + 1, hp.step hadj ⟨hq, hc⟩⟩

theorem connected_congr (h : g.Connected s p) : g.Connected s q ↔ g.Connected p q :=
  ⟨h.symm.trans, h.trans⟩

/-- At a distance of exactly `n` steps. -/
def Away (g : Grid) (c : Colour) (s : Pos) (n : Nat) (p : Pos) : Prop :=
  IsLeast {m | g.Path c s p m} n

theorem Path.away (h : g.Path c s p n) : ∃ m, m ≤ n ∧ g.Away c s m p := by
  have hne : {m | g.Path c s p m}.Nonempty := ⟨n, h⟩
  exact ⟨sInf {m | g.Path c s p m}, Nat.sInf_le h, Nat.sInf_mem hne, fun _ hm => Nat.sInf_le hm⟩

theorem Away.unique (hm : g.Away c s m p) (hn : g.Away c s n p) : m = n := IsLeast.unique hm hn

theorem Away.distance_eq (h : g.Away (g.colourAt s) s n p) : g.distance s p = n := h.csInf_eq

theorem away_zero_iff : g.Away c s 0 p ↔ p = s ∧ g.Fits c s := by
  constructor
  · intro h
    cases h.1 with
    | start hs => exact ⟨rfl, hs⟩
  · rintro ⟨rfl, hs⟩
    exact ⟨.start hs, fun _ _ => Nat.zero_le _⟩

/-- The codels one step further out are the adjacent ones that no shorter path reaches. -/
theorem away_succ_iff : g.Away c s (n + 1) q ↔
    g.Fits c q ∧ (∀ m ≤ n, ¬ g.Path c s q m) ∧ ∃ p, g.Away c s n p ∧ p.Adjacent q := by
  constructor
  · intro h
    have hshort : ∀ m ≤ n, ¬ g.Path c s q m := by
      intro m hm hpath
      have := h.2 hpath
      omega
    refine ⟨h.1.fits, hshort, ?_⟩
    cases h.1 with
    | @step p _ _ hp hadj hfits =>
      refine ⟨p, ⟨hp, ?_⟩, hadj⟩
      intro m hm
      by_contra hlt
      exact hshort (m + 1) (by omega) (Path.step hm hadj hfits)
  · rintro ⟨hfits, hshort, p, hp, hadj⟩
    refine ⟨Path.step hp.1 hadj hfits, ?_⟩
    intro m hm
    by_contra hlt
    exact hshort m (by omega) hm

/-- Wherever there is a codel at some distance there is one at every smaller distance. -/
theorem Away.exists_nearer (h : g.Away c s (n + m) p) : ∃ q, g.Away c s n q := by
  induction m generalizing p with
  | zero => exact ⟨p, h⟩
  | succ m ih =>
    obtain ⟨_, _, q, hq, _⟩ := away_succ_iff.mp h
    exact ih hq

end Grid

end Codel
