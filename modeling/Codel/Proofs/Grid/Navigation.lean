import Codel.Grid.Navigation
import Codel.Proofs.Grid.Fill

namespace Codel

theorem toInt_neg_of_ne_least {a : Int64} (h : a ≠ Int64.minValue) : (-a).toInt = -a.toInt := by
  have hlt := a.toInt_lt
  have hle := a.le_toInt
  have hne : a.toInt ≠ -2 ^ 63 := fun heq => h (Int64.toInt_inj.mp heq)
  rw [Int64.toInt_neg]
  exact Int.bmod_eq_of_le (by omega) (by omega)

theorem toInt_neg_of_nonneg {a : Int64} (h : 0 ≤ a.toInt) : (-a).toInt = -a.toInt := by
  apply toInt_neg_of_ne_least
  rintro rfl
  exact absurd h (by decide)

namespace Direction

variable {d : Direction}

theorem mem_compass_iff : d ∈ compass ↔ d = right ∨ d = down ∨ d = left ∨ d = up := by
  simp [compass]

theorem clockwise_mem_compass (h : d ∈ compass) : d.clockwise ∈ compass := by
  rcases mem_compass_iff.mp h with rfl | rfl | rfl | rfl <;> decide

end Direction

namespace Chooser

variable {c : Chooser}

theorem mem_both_iff : c ∈ both ↔ c = left ∨ c = right := by simp [both]

theorem toggle_mem_both (c : Chooser) : c.toggle ∈ both := by
  unfold toggle
  split <;> simp [both]

theorem retry_mem_both (h : c ∈ both) (attempt : Nat) : c.retry attempt ∈ both := by
  unfold retry
  split
  · exact toggle_mem_both c
  · exact h

section Preference

variable {d : Direction} {p q r : Pos}

theorem prefers_left : left.prefers d p q = decide (p.across d < q.across d) := by
  simp [prefers, show left ≠ right by decide]

theorem prefers_right : right.prefers d p q = decide (q.across d < p.across d) := by
  simp [prefers, show right ≠ left by decide]

theorem prefers_self (c : Chooser) (d : Direction) (p : Pos) : c.prefers d p p = false := by
  simp [prefers, Int64.lt_irrefl]

/-- What is not preferred to a codel is not preferred to a better one. -/
theorem not_prefers_trans (hpq : c.prefers d p q = false) (hrq : c.prefers d r q = true) :
    c.prefers d p r = false := by
  simp only [prefers, Bool.or_eq_false_iff, Bool.and_eq_false_iff, Bool.or_eq_true,
    Bool.and_eq_true, decide_eq_false_iff_not, decide_eq_true_eq, Int64.lt_iff_toInt_lt] at *
  rcases hrq with ⟨rfl, hlt⟩ | ⟨rfl, hlt⟩
  · refine ⟨Or.inr ?_, Or.inl (by decide)⟩
    have := hpq.1.resolve_left (by simp)
    omega
  · refine ⟨Or.inl (by decide), Or.inr ?_⟩
    have := hpq.2.resolve_left (by simp)
    omega

theorem across_eq_of_not_prefers (hc : c ∈ both) (hpq : c.prefers d p q = false)
    (hqp : c.prefers d q p = false) : p.across d = q.across d := by
  rcases mem_both_iff.mp hc with rfl | rfl
  · rw [prefers_left, decide_eq_false_iff_not, Int64.not_lt] at hpq hqp
    exact Int64.le_antisymm hqp hpq
  · rw [prefers_right, decide_eq_false_iff_not, Int64.not_lt] at hpq hqp
    exact Int64.le_antisymm hpq hqp

end Preference

end Chooser

theorem Pos.eq_of_reach_of_across {d : Direction} {p q : Pos} (hr : p.reach d = q.reach d)
    (ha : p.across d = q.across d) : p = q := by
  have hneg : ∀ {a b : Int64}, -a = -b → a = b := fun {a b} h => by
    simpa using congrArg (fun v => -v) h
  cases p
  cases q
  unfold Pos.reach at hr
  unfold Pos.across at ha
  by_cases h0 : d = Direction.right
  · simp_all [Direction.isHorizontal]
  · by_cases h2 : d = Direction.left
    · subst d
      simp only [show Direction.left ≠ Direction.right by decide,
        show Direction.left ≠ Direction.down by decide, ↓reduceIte] at hr
      simp_all [Direction.isHorizontal, hneg hr]
    · by_cases h1 : d = Direction.down
      · simp_all [Direction.isHorizontal]
      · simp only [h0, h1, h2, ↓reduceIte] at hr
        simp_all [Direction.isHorizontal, hneg hr]

/-- The codel of a block that is left from. -/
structure IsExit (ps : List Pos) (d : Direction) (c : Chooser) (e : Pos) : Prop where
  mem : e ∈ ps
  furthest : ∀ q ∈ ps, q.reach d ≤ e.reach d
  outermost : ∀ q ∈ ps, q.reach d = e.reach d → c.prefers d q e = false

section Exit

variable {ps qs : List Pos} {d : Direction} {c : Chooser} {a b e p : Pos}

theorem IsExit.unique (hc : c ∈ Chooser.both) (ha : IsExit ps d c a) (hb : IsExit ps d c b) :
    a = b := by
  have hr := Int64.le_antisymm (hb.furthest a ha.mem) (ha.furthest b hb.mem)
  exact Pos.eq_of_reach_of_across hr (Chooser.across_eq_of_not_prefers hc
    (hb.outermost a ha.mem hr) (ha.outermost b hb.mem hr.symm))

theorem IsExit.perm (h : ps.Perm qs) (he : IsExit ps d c e) : IsExit qs d c e where
  mem := h.mem_iff.mp he.mem
  furthest q hq := he.furthest q (h.mem_iff.mpr hq)
  outermost q hq := he.outermost q (h.mem_iff.mpr hq)

theorem foldl_reach (ps : List Pos) (d : Direction) (m : Int64) :
    let best := ps.foldl (fun m q => if m < q.reach d then q.reach d else m) m
    m ≤ best ∧ (∀ q ∈ ps, q.reach d ≤ best) ∧ (best = m ∨ ∃ q ∈ ps, q.reach d = best) := by
  induction ps generalizing m with
  | nil => simp
  | cons p ps ih =>
    simp only [List.foldl_cons, List.mem_cons, forall_eq_or_imp, exists_eq_or_imp]
    split
    next hlt =>
      obtain ⟨hle, hall, hbest⟩ := ih (p.reach d)
      refine ⟨Int64.le_trans (Int64.le_of_lt hlt) hle, ⟨hle, hall⟩, ?_⟩
      exact Or.inr (hbest.imp_left Eq.symm)
    next hnlt =>
      obtain ⟨hle, hall, hbest⟩ := ih m
      refine ⟨hle, ⟨Int64.le_trans (Int64.not_lt.mp hnlt) hle, hall⟩, ?_⟩
      exact hbest.imp_right Or.inr

theorem mem_edge_iff : e ∈ edge d ps ↔ e ∈ ps ∧ ∀ q ∈ ps, q.reach d ≤ e.reach d := by
  cases ps with
  | nil => simp [edge]
  | cons p ps =>
    obtain ⟨hle, hall, hbest⟩ := foldl_reach ps d (p.reach d)
    simp only [edge, List.mem_filter, decide_eq_true_eq]
    refine and_congr_right fun he => ?_
    constructor
    · intro heq q hq
      rw [heq]
      rcases List.mem_cons.mp hq with rfl | hq
      · exact hle
      · exact hall q hq
    · intro hmax
      apply Int64.le_antisymm
      · rcases List.mem_cons.mp he with rfl | he
        · exact hle
        · exact hall e he
      · rcases hbest with hbest | ⟨q, hq, hbest⟩
        · rw [hbest]
          exact hmax p (by simp)
        · rw [← hbest]
          exact hmax q (by simp [hq])

theorem edge_ne_nil (h : ps ≠ []) : edge d ps ≠ [] := by
  cases ps with
  | nil => exact absurd rfl h
  | cons p ps =>
    obtain ⟨_, _, hbest⟩ := foldl_reach ps d (p.reach d)
    rcases hbest with hbest | ⟨q, hq, hbest⟩
    · exact List.ne_nil_of_mem (List.mem_filter.mpr ⟨by simp, by simp [hbest]⟩ : p ∈ _)
    · exact List.ne_nil_of_mem (List.mem_filter.mpr ⟨by simp [hq], by simp [hbest]⟩ : q ∈ _)

theorem foldl_prefers (c : Chooser) (d : Direction) (ps : List Pos) (p : Pos) :
    let e := ps.foldl (fun chosen q => if c.prefers d q chosen then q else chosen) p
    e ∈ p :: ps ∧ (∀ q, c.prefers d q p = false → c.prefers d q e = false) ∧
      ∀ q ∈ ps, c.prefers d q e = false := by
  induction ps generalizing p with
  | nil => simp
  | cons r ps ih =>
    simp only [List.foldl_cons, List.mem_cons, forall_eq_or_imp]
    split
    next hr =>
      obtain ⟨hmem, hkeep, hall⟩ := ih r
      refine ⟨Or.inr (List.mem_cons.mp hmem), ?_, hkeep r (Chooser.prefers_self c d r), hall⟩
      exact fun q hq => hkeep q (Chooser.not_prefers_trans hq hr)
    next hr =>
      obtain ⟨hmem, hkeep, hall⟩ := ih p
      refine ⟨?_, hkeep, hkeep r (Bool.eq_false_iff.mpr hr), hall⟩
      exact (List.mem_cons.mp hmem).imp_right Or.inr

theorem isExit_of_exitCodel? (h : exitCodel? ps d c = some e) : IsExit ps d c e := by
  unfold exitCodel? at h
  split at h
  next => simp at h
  next p rest hedge =>
    cases Option.some.inj h
    obtain ⟨hmem, hkeep, hall⟩ := foldl_prefers c d rest p
    rw [← hedge] at hmem
    obtain ⟨hps, hmax⟩ := mem_edge_iff.mp hmem
    refine ⟨hps, hmax, ?_⟩
    intro q hq heq
    have hqedge : q ∈ edge d ps := mem_edge_iff.mpr ⟨hq, fun r hr => heq ▸ hmax r hr⟩
    rw [hedge] at hqedge
    rcases List.mem_cons.mp hqedge with rfl | hqrest
    · exact hkeep q (Chooser.prefers_self c d q)
    · exact hall q hqrest

theorem exists_exitCodel? (h : ps ≠ []) : ∃ e, exitCodel? ps d c = some e := by
  unfold exitCodel?
  split
  next hedge => exact absurd hedge (edge_ne_nil h)
  next p rest _ => exact ⟨_, rfl⟩

theorem exitCodel?_eq_some_iff (hc : c ∈ Chooser.both) :
    exitCodel? ps d c = some e ↔ IsExit ps d c e := by
  refine ⟨isExit_of_exitCodel?, fun he => ?_⟩
  obtain ⟨e', he'⟩ := exists_exitCodel? (d := d) (c := c) (List.ne_nil_of_mem he.mem)
  rw [he', he.unique hc (isExit_of_exitCodel? he')]

/-- The exit does not depend on the order in which a block lists its codels. -/
theorem exitCodel?_perm (hc : c ∈ Chooser.both) (h : ps.Perm qs) :
    exitCodel? ps d c = exitCodel? qs d c := by
  apply Option.ext
  intro e
  rw [exitCodel?_eq_some_iff hc, exitCodel?_eq_some_iff hc]
  exact ⟨IsExit.perm h, IsExit.perm h.symm⟩

end Exit

namespace Grid

variable {g : Grid} {ps qs : List Pos} {d : Direction} {c : Chooser} {s q e : Pos}

theorem beyond?_perm (hc : c ∈ Chooser.both) (h : ps.Perm qs) :
    g.beyond? ps d c = g.beyond? qs d c := by
  unfold beyond?
  rw [exitCodel?_perm hc h]

theorem beyond?_eq_some (h : g.beyond? ps d c = some q) :
    ∃ e, IsExit ps d c e ∧ q = e.step d ∧ g.contains q = true ∧ g.colourAt q ≠ Colour.black := by
  unfold beyond? at h
  split at h
  next => simp at h
  next e he =>
    dsimp only at h
    split at h
    next hopen =>
      cases Option.some.inj h
      exact ⟨e, isExit_of_exitCodel? he, rfl, hopen⟩
    next => simp at h

theorem navigateFrom_perm (hc : c ∈ Chooser.both) (h : ps.Perm qs) (left attempt : Nat) :
    g.navigateFrom ps left attempt d c = g.navigateFrom qs left attempt d c := by
  induction left generalizing attempt d c with
  | zero => rfl
  | succ left ih =>
    unfold navigateFrom
    rw [beyond?_perm hc h, ih (Chooser.retry_mem_both hc attempt)]

theorem navigate_perm (hc : c ∈ Chooser.both) (h : ps.Perm qs) :
    g.navigate ps d c = g.navigate qs d c := by
  unfold navigate
  rw [navigateFrom_perm hc h]
  have hnil : ps = [] ↔ qs = [] := by
    constructor
    · rintro rfl
      exact h.nil_eq.symm
    · rintro rfl
      exact h.eq_nil
  simp only [hnil]

theorem navigateFrom_pointers (hd : d ∈ Direction.compass) (hc : c ∈ Chooser.both)
    (left attempt : Nat) :
    (g.navigateFrom ps left attempt d c).dp ∈ Direction.compass ∧
      (g.navigateFrom ps left attempt d c).cc ∈ Chooser.both := by
  induction left generalizing attempt d c with
  | zero => exact ⟨hd, hc⟩
  | succ left ih =>
    unfold navigateFrom
    split
    · exact ⟨hd, hc⟩
    · exact ih (Direction.clockwise_mem_compass hd) (Chooser.retry_mem_both hc attempt) _

theorem navigate_pointers (hd : d ∈ Direction.compass) (hc : c ∈ Chooser.both) (ps : List Pos) :
    (g.navigate ps d c).dp ∈ Direction.compass ∧ (g.navigate ps d c).cc ∈ Chooser.both := by
  unfold navigate
  split
  · exact ⟨hd, hc⟩
  · exact navigateFrom_pointers hd hc _ _

theorem navigateFrom_open (left attempt : Nat) (d : Direction) (c : Chooser)
    (h : (g.navigateFrom ps left attempt d c).blocked = false) :
    let m := g.navigateFrom ps left attempt d c
    g.beyond? ps m.dp m.cc = some m.target := by
  induction left generalizing attempt d c with
  | zero => simp [navigateFrom] at h
  | succ left ih =>
    unfold navigateFrom at h ⊢
    cases hb : g.beyond? ps d c with
    | some next => exact hb
    | none =>
      simp only [hb] at h
      exact ih _ _ _ h

/-- A way that is open leads to the codel beyond the exit that its pointers select. -/
theorem navigate_open (h : (g.navigate ps d c).blocked = false) :
    g.beyond? ps (g.navigate ps d c).dp (g.navigate ps d c).cc =
      some (g.navigate ps d c).target := by
  unfold navigate at h ⊢
  split at h
  next => simp at h
  next hne =>
    rw [if_neg hne]
    exact navigateFrom_open _ _ _ _ h

/-- Failed tries turn the direction each time and toggle the chooser every second time. -/
theorem navigateFrom_blocked (left attempt : Nat) (d : Direction) (c : Chooser)
    (h : (g.navigateFrom ps left attempt d c).blocked = true) :
    g.navigateFrom ps left attempt d c =
      { dp := Direction.clockwise^[left] d
        cc := Chooser.toggle^[(attempt + left) / 2 - attempt / 2] c
        attempts := attempt + left
        blocked := true } := by
  induction left generalizing attempt d c with
  | zero => simp [navigateFrom]
  | succ left ih =>
    have hretry : c.retry attempt = Chooser.toggle^[(attempt + 1) / 2 - attempt / 2] c := by
      unfold Chooser.retry
      split
      next hodd =>
        have hone : (attempt + 1) / 2 - attempt / 2 = 1 := by omega
        rw [hone, Function.iterate_one]
      next heven =>
        have hzero : (attempt + 1) / 2 - attempt / 2 = 0 := by omega
        rw [hzero, Function.iterate_zero_apply]
    rw [navigateFrom] at h ⊢
    cases hb : g.beyond? ps d c with
    | some next => simp [hb] at h
    | none =>
      simp only [hb] at h
      dsimp only
      rw [ih _ _ _ h, hretry, ← Function.iterate_succ_apply, ← Function.iterate_add_apply]
      rw [show (attempt + 1 + left) / 2 - (attempt + 1) / 2 + ((attempt + 1) / 2 - attempt / 2) =
        (attempt + (left + 1)) / 2 - attempt / 2 by omega, Nat.add_right_comm, Nat.add_assoc]

/-- Eight failed tries turn the direction round twice and toggle the chooser four times. -/
theorem navigate_blocked (hd : d ∈ Direction.compass) (hc : c ∈ Chooser.both)
    (h : (g.navigate ps d c).blocked = true) :
    (g.navigate ps d c).dp = d ∧ (g.navigate ps d c).cc = c := by
  have hturns : Direction.clockwise^[maxAttempts] d = d := by
    rcases Direction.mem_compass_iff.mp hd with rfl | rfl | rfl | rfl <;> decide
  have htoggles : Chooser.toggle^[(0 + maxAttempts) / 2 - 0 / 2] c = c := by
    rcases Chooser.mem_both_iff.mp hc with rfl | rfl <;> decide
  unfold navigate at h ⊢
  split at h
  next he => simp [he]
  next hne =>
    rw [if_neg hne, navigateFrom_blocked _ _ _ _ h]
    dsimp only
    rw [hturns, htoggles]
    exact ⟨rfl, rfl⟩

theorem reach_lt_step (hd : d ∈ Direction.compass) (he : g.contains e = true)
    (hs : g.contains (e.step d) = true) : e.reach d < (e.step d).reach d := by
  obtain ⟨⟨hx, _⟩, hy, _⟩ := contains_iff.mp he
  obtain ⟨⟨hsx, _⟩, hsy, _⟩ := contains_iff.mp hs
  rw [Int64.lt_iff_toInt_lt]
  rcases Direction.mem_compass_iff.mp hd with rfl | rfl | rfl | rfl
  · change e.x.toInt < (e.x + 1).toInt
    have := toInt_add_one_of_nonneg (a := e.x) hsx
    omega
  · change e.y.toInt < (e.y + 1).toInt
    have := toInt_add_one_of_nonneg (a := e.y) hsy
    omega
  · change (-e.x).toInt < (-(e.x - 1)).toInt
    have := toInt_neg_of_nonneg (a := e.x - 1) hsx
    rw [this, toInt_neg_of_nonneg hx, toInt_sub_one hx]
    omega
  · change (-e.y).toInt < (-(e.y - 1)).toInt
    have := toInt_neg_of_nonneg (a := e.y - 1) hsy
    rw [this, toInt_neg_of_nonneg hy, toInt_sub_one hy]
    omega

/-- The step from a codel on the edge of its block leads to another colour: the codel there is not
in the block, which holds every adjacent codel of its colour. -/
theorem exit_step_leaves (hd : d ∈ Direction.compass)
    (he : IsExit (g.blockAt s).codels d c e) (hq : g.contains (e.step d) = true) :
    e.step d ∉ (g.blockAt s).codels ∧ g.colourAt (e.step d) ≠ g.colourAt s := by
  have hconn := mem_blockAt_iff.mp he.mem
  have hlt := reach_lt_step hd hconn.contains hq
  have hnot : e.step d ∉ (g.blockAt s).codels := by
    intro hmem
    exact Int64.not_lt.mpr (he.furthest _ hmem) hlt
  -- Of the same colour, the codel would be joined to the block after all.
  refine ⟨hnot, fun hcol => hnot (mem_blockAt_iff.mpr ?_)⟩
  have hadj := (mem_neighbours_iff_adjacent hconn.contains hq).mp
    (Pos.mem_neighbours_iff.mpr ⟨d, hd, rfl⟩)
  exact hconn.step hadj hq hcol

end Grid

end Codel
