import Codel.Proofs.Grid.Attempts
import Codel.Proofs.Grid.Likeness

namespace Codel

/-- The pointers of the try after `k` failed ones. -/
def candidate (d : Direction) (c : Chooser) (k : Nat) : Direction × Chooser :=
  (Direction.clockwise^[k] d, Chooser.toggle^[k / 2] c)

/-- Where pointers lead: one step beyond the exit that they select, whatever is there. -/
def exitTarget? (ps : List Pos) (v : Direction × Chooser) : Option Pos :=
  (exitCodel? ps v.1 v.2).map fun e => e.step v.1

section Candidates

variable {ps : List Pos} {d : Direction} {c : Chooser}

theorem exists_exitTarget? (hps : ps ≠ []) (v : Direction × Chooser) :
    ∃ p, exitTarget? ps v = some p := by
  obtain ⟨e, he⟩ := exists_exitCodel? (d := v.1) (c := v.2) hps
  exact ⟨e.step v.1, congrArg (Option.map _) he⟩

theorem candidate_succ (d : Direction) (c : Chooser) (k : Nat) :
    candidate d c (k + 1) = ((candidate d c k).1.clockwise, (candidate d c k).2.retry k) := by
  have hdirection := Function.iterate_succ_apply' Direction.clockwise k d
  have hchooser : Chooser.toggle^[(k + 1) / 2] c = (Chooser.toggle^[k / 2] c).retry k := by
    unfold Chooser.retry
    split
    next hodd =>
      have hhalf : (k + 1) / 2 = k / 2 + 1 := by omega
      rw [hhalf, Function.iterate_succ_apply']
    next heven =>
      have hhalf : (k + 1) / 2 = k / 2 := by omega
      rw [hhalf]
  unfold candidate
  rw [hdirection, hchooser]

/-- Four tries turn the direction round once and toggle the chooser twice. -/
theorem candidate_add_four (hd : d ∈ Direction.compass) (hc : c ∈ Chooser.both) (k : Nat) :
    candidate d c (k + 4) = candidate d c k := by
  have hround : ∀ d ∈ Direction.compass, Direction.clockwise^[4] d = d := by decide
  have hhalf : (k + 4) / 2 = k / 2 + 2 := by omega
  unfold candidate
  rw [hhalf, Function.iterate_add_apply, Function.iterate_add_apply, hround d hd]
  change (_, Chooser.toggle^[k / 2] c.toggle.toggle) = _
  rw [Chooser.toggle_toggle c hc]

theorem candidate_mod_four (hd : d ∈ Direction.compass) (hc : c ∈ Chooser.both) {k : Nat}
    (hk : k < 8) : candidate d c k = candidate d c (k % 4) := by
  by_cases hlow : k < 4
  · rw [Nat.mod_eq_of_lt hlow]
  · obtain ⟨j, rfl⟩ := Nat.exists_eq_add_of_le' (show 4 ≤ k by omega)
    have hj : (j + 4) % 4 = j := by omega
    rw [hj, candidate_add_four hd hc]

end Candidates

namespace Grid

variable {g : Grid} {ps : List Pos} {d : Direction} {c : Chooser} {p : Pos} {k : Nat}

/-- The pointers lead to a codel that can be entered. -/
def Opens (g : Grid) (ps : List Pos) (v : Direction × Chooser) (p : Pos) : Prop :=
  exitTarget? ps v = some p ∧ g.Open p

theorem beyond?_eq_some_iff {v : Direction × Chooser} :
    g.beyond? ps v.1 v.2 = some p ↔ g.Opens ps v p := by
  unfold beyond? Opens exitTarget?
  cases hexit : exitCodel? ps v.1 v.2 with
  | none => simp
  | some e =>
    simp only [Option.map_some, Option.some.injEq]
    constructor
    · intro h
      split at h
      next hopen =>
        obtain rfl := Option.some.inj h
        exact ⟨rfl, hopen⟩
      next => simp at h
    · rintro ⟨rfl, hopen⟩
      exact if_pos hopen

theorem beyond?_eq_none {v : Direction × Chooser} (h : ∀ p, ¬ g.Opens ps v p) :
    g.beyond? ps v.1 v.2 = none := by
  apply Option.eq_none_iff_forall_ne_some.mpr
  intro p hp
  exact h p (beyond?_eq_some_iff.mp hp)

/-- Tries that fail only pass the pointers on. -/
theorem navigateFrom_of_shut (left : Nat) (m : Nat)
    (h : ∀ j < m, ∀ p, ¬ g.Opens ps (candidate d c j) p) :
    g.navigateFrom ps (left + m) 0 d c =
      g.navigateFrom ps left m (candidate d c m).1 (candidate d c m).2 := by
  induction m generalizing left with
  | zero => rfl
  | succ m ih =>
    have hshut := beyond?_eq_none (h m (Nat.lt_succ_self m))
    have hearlier : ∀ j < m, ∀ p, ¬ g.Opens ps (candidate d c j) p := by
      intro j hj
      exact h j (by omega)
    have hpassed := ih (left + 1) hearlier
    rw [show left + (m + 1) = left + 1 + m by omega, hpassed, navigateFrom, hshut, candidate_succ]

theorem navigate_of_first_open (hps : ps ≠ []) (hk : k < maxAttempts)
    (hopen : g.Opens ps (candidate d c k) p)
    (hfirst : ∀ j < k, ∀ q, ¬ g.Opens ps (candidate d c j) q) :
    g.navigate ps d c =
      { target := p, dp := (candidate d c k).1, cc := (candidate d c k).2, attempts := k + 1 } := by
  obtain ⟨left, hleft⟩ := Nat.exists_eq_add_of_le' hk
  have hpassed := navigateFrom_of_shut (left + 1) k hfirst
  have htry := beyond?_eq_some_iff.mpr hopen
  unfold navigate
  rw [if_neg hps, hleft, show left + (k + 1) = left + 1 + k by omega, hpassed, navigateFrom, htry]

theorem navigate_of_shut (hps : ps ≠ []) (hd : d ∈ Direction.compass) (hc : c ∈ Chooser.both)
    (h : ∀ k < maxAttempts, ∀ p, ¬ g.Opens ps (candidate d c k) p) :
    g.navigate ps d c = { dp := d, cc := c, attempts := maxAttempts, blocked := true } := by
  have hpassed := navigateFrom_of_shut 0 maxAttempts h
  have hback : candidate d c maxAttempts = (d, c) :=
    (candidate_add_four hd hc 4).trans (candidate_add_four hd hc 0)
  rw [Nat.zero_add, hback] at hpassed
  unfold navigate
  rw [if_neg hps, hpassed]
  rfl

/-- The first of the eight tries that leads to a codel to enter is taken, and it is among the first
four; with none the block counts as closed and the pointers are as they were. -/
theorem first_open_try_is_taken (g : Grid) (ps : List Pos) (hps : ps ≠ [])
    (hd : d ∈ Direction.compass) (hc : c ∈ Chooser.both) :
    (∀ k, ∃ p, exitTarget? ps (candidate d c k) = some p) ∧
    ((∃ k < 8, ∃ p, g.Opens ps (candidate d c k) p) →
      ∃ k p, k ≤ 3 ∧ g.Opens ps (candidate d c k) p ∧
        (∀ j < k, ∀ q, ¬ g.Opens ps (candidate d c j) q) ∧
        g.navigate ps d c = { target := p, dp := (candidate d c k).1, cc := (candidate d c k).2
                              attempts := k + 1, blocked := false }) ∧
    ((∀ k < 8, ∀ p, ¬ g.Opens ps (candidate d c k) p) →
      g.navigate ps d c = { dp := d, cc := c, attempts := 8, blocked := true }) := by
  refine ⟨fun k => exists_exitTarget? hps _, ?_, navigate_of_shut hps hd hc⟩
  rintro ⟨k, hk, p, hopen⟩
  classical
  -- The last four tries repeat the first four, so the least open one is among these.
  rw [candidate_mod_four hd hc hk] at hopen
  have hlow : ∃ j, ∃ q, g.Opens ps (candidate d c j) q := ⟨k % 4, p, hopen⟩
  obtain ⟨q, hq⟩ := Nat.find_spec hlow
  have hleast : Nat.find hlow ≤ k % 4 := Nat.find_le ⟨p, hopen⟩
  have hfirst : ∀ j < Nat.find hlow, ∀ q, ¬ g.Opens ps (candidate d c j) q := by
    intro j hj q hjq
    exact Nat.find_min hlow hj ⟨q, hjq⟩
  have hthree : Nat.find hlow ≤ 3 := by omega
  refine ⟨Nat.find hlow, q, hthree, hq, hfirst, ?_⟩
  exact navigate_of_first_open hps (show Nat.find hlow < 8 by omega) hq hfirst

/-- A codel below the only one that can be entered: going right, the fourth try is the first that
leads to it. -/
theorem first_open_try_is_taken_fourth : ∃ (g : Grid) (ps : List Pos),
    ps = (g.blockAt ⟨0, 1⟩).codels ∧ ps ≠ [] ∧
    Direction.right ∈ Direction.compass ∧ Chooser.left ∈ Chooser.both ∧
    g.Opens ps (candidate .right .left 7) ⟨0, 0⟩ ∧
    ∃ k p, k ≤ 3 ∧ g.Opens ps (candidate .right .left k) p ∧
      g.navigate ps .right .left = { target := p, dp := (candidate .right .left k).1
                                     cc := (candidate .right .left k).2, attempts := k + 1 } ∧
      g.navigate ps .right .left = { target := ⟨0, 0⟩, dp := .up, cc := .right, attempts := 4 } := by
  let g : Grid := Grid.ofFn 1 2 fun _ y => if y = 0 then .ofHue 2 1 else .ofHue 0 1
  have hps : (g.blockAt ⟨0, 1⟩).codels ≠ [] := by decide
  have hd : Direction.right ∈ Direction.compass := by decide
  have hc : Chooser.left ∈ Chooser.both := by decide
  have hopen : g.Opens (g.blockAt ⟨0, 1⟩).codels (candidate .right .left 7) ⟨0, 0⟩ :=
    beyond?_eq_some_iff.mp (by decide)
  obtain ⟨_, htaken, _⟩ := first_open_try_is_taken g _ hps hd hc
  obtain ⟨k, p, hk, hp, _, hmove⟩ := htaken ⟨7, by decide, _, hopen⟩
  exact ⟨g, _, rfl, hps, hd, hc, hopen, k, p, hk, hp, hmove, by decide⟩

end Grid

end Codel
