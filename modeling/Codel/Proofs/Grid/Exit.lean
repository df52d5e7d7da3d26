import Codel.Proofs.Grid.Navigation

namespace Codel

namespace Pos

variable {d : Direction} {p : Pos}

/-- How far a position lies along a direction. -/
def along (d : Direction) (p : Pos) : Int :=
  if d = .right then p.x.toInt
  else if d = .left then -p.x.toInt
  else if d = .down then p.y.toInt
  else -p.y.toInt

/-- Where a position lies on the axis across a direction. -/
def aside (d : Direction) (p : Pos) : Int :=
  if d = .right ∨ d = .left then p.y.toInt else p.x.toInt

/-- Neither coordinate is the least word. -/
def Negatable (p : Pos) : Prop := p.x ≠ Int64.minValue ∧ p.y ≠ Int64.minValue

instance : DecidablePred Negatable := fun p =>
  inferInstanceAs (Decidable (p.x ≠ Int64.minValue ∧ p.y ≠ Int64.minValue))

theorem toInt_reach (hd : d ∈ Direction.compass) (hp : p.Negatable) :
    (p.reach d).toInt = p.along d := by
  have hx := toInt_neg_of_ne_least hp.1
  have hy := toInt_neg_of_ne_least hp.2
  rcases Direction.mem_compass_iff.mp hd with rfl | rfl | rfl | rfl
  · rfl
  · rfl
  · exact hx
  · exact hy

theorem toInt_across (hd : d ∈ Direction.compass) (p : Pos) :
    (p.across d).toInt = p.aside d := by
  rcases Direction.mem_compass_iff.mp hd with rfl | rfl | rfl | rfl <;> rfl

end Pos

/-- The codel lies furthest along the direction and, of those that lie as far, leftmost or rightmost
as the chooser says. -/
structure Outermost (ps : List Pos) (d : Direction) (c : Chooser) (e : Pos) : Prop where
  mem : e ∈ ps
  furthest : ∀ q ∈ ps, q.along d ≤ e.along d
  least : c = .left → ∀ q ∈ ps, q.along d = e.along d → e.aside d ≤ q.aside d
  greatest : c = .right → ∀ q ∈ ps, q.along d = e.along d → q.aside d ≤ e.aside d

section Outermost

variable {ps : List Pos} {d : Direction} {c : Chooser} {e : Pos}

theorem not_prefers_iff (hd : d ∈ Direction.compass) (hc : c ∈ Chooser.both) (q e : Pos) :
    c.prefers d q e = false ↔
      (c = .left → e.aside d ≤ q.aside d) ∧ (c = .right → q.aside d ≤ e.aside d) := by
  rw [← Pos.toInt_across hd, ← Pos.toInt_across hd, ← Int64.le_iff_toInt_le,
    ← Int64.le_iff_toInt_le]
  have hne : Chooser.left ≠ .right := by decide
  rcases Chooser.mem_both_iff.mp hc with rfl | rfl
  · simp [Chooser.prefers_left, hne]
  · simp [Chooser.prefers_right, hne.symm]

/-- Where words are negated exactly, what is compared as words is compared as whole numbers. -/
theorem isExit_iff_outermost (hps : ∀ p ∈ ps, p.Negatable) (hd : d ∈ Direction.compass)
    (hc : c ∈ Chooser.both) : IsExit ps d c e ↔ Outermost ps d c e := by
  have hreach : ∀ q ∈ ps, (q.reach d).toInt = q.along d := fun q hq => Pos.toInt_reach hd (hps q hq)
  constructor
  · intro h
    have hsame : ∀ q ∈ ps, q.along d = e.along d → q.reach d = e.reach d := by
      intro q hq heq
      rw [← hreach q hq, ← hreach e h.mem] at heq
      exact Int64.toInt_inj.mp heq
    refine ⟨h.mem, ?_, ?_, ?_⟩
    · intro q hq
      have hle := Int64.le_iff_toInt_le.mp (h.furthest q hq)
      rwa [hreach q hq, hreach e h.mem] at hle
    · intro hleft q hq heq
      exact ((not_prefers_iff hd hc q e).mp (h.outermost q hq (hsame q hq heq))).1 hleft
    · intro hright q hq heq
      exact ((not_prefers_iff hd hc q e).mp (h.outermost q hq (hsame q hq heq))).2 hright
  · intro h
    refine ⟨h.mem, ?_, ?_⟩
    · intro q hq
      have hle := h.furthest q hq
      rw [← hreach q hq, ← hreach e h.mem] at hle
      exact Int64.le_iff_toInt_le.mpr hle
    · intro q hq heq
      have hsame : q.along d = e.along d := by rw [← hreach q hq, ← hreach e h.mem, heq]
      exact (not_prefers_iff hd hc q e).mpr
        ⟨fun hleft => h.least hleft q hq hsame, fun hright => h.greatest hright q hq hsame⟩

/-- The exit is the one codel that lies furthest along the direction and outermost among those, in
whatever order the codels come. -/
theorem exit_is_the_outermost (hne : ps ≠ []) (hps : ∀ p ∈ ps, p.Negatable)
    (hd : d ∈ Direction.compass) (hc : c ∈ Chooser.both) :
    ∃ e, Outermost ps d c e ∧ (∀ e', Outermost ps d c e' → e' = e) ∧
      ∀ qs, ps.Perm qs → exitCodel? qs d c = some e := by
  obtain ⟨e, he⟩ := exists_exitCodel? (d := d) (c := c) hne
  have hexit := isExit_of_exitCodel? he
  refine ⟨e, (isExit_iff_outermost hps hd hc).mp hexit, ?_, ?_⟩
  · intro e' he'
    exact ((isExit_iff_outermost hps hd hc).mpr he').unique hc hexit
  · intro qs hperm
    rw [← exitCodel?_perm hc hperm, he]

end Outermost

/-- Upwards from a block that reaches its top row in two columns, to the right. -/
theorem exit_is_the_outermost_upwards :
    let ps : List Pos := [⟨1, 4⟩, ⟨0, 2⟩, ⟨1, 2⟩, ⟨1, 3⟩]
    ps ≠ [] ∧ (∀ p ∈ ps, p.Negatable) ∧ Direction.up ∈ Direction.compass ∧
      Chooser.right ∈ Chooser.both ∧ Outermost ps .up .right ⟨1, 2⟩ ∧
      exitCodel? ps.reverse .up .right = some ⟨1, 2⟩ := by
  intro ps
  have hne : ps ≠ [] := List.cons_ne_nil _ _
  have hps : ∀ p ∈ ps, p.Negatable := by decide
  have hd : Direction.up ∈ Direction.compass := by decide
  have hc : Chooser.right ∈ Chooser.both := by decide
  obtain ⟨e, houter, -, hexit⟩ := exit_is_the_outermost hne hps hd hc
  have he : exitCodel? ps .up .right = some ⟨1, 2⟩ := by decide
  obtain rfl := Option.some.inj ((hexit ps (.refl ps)).symm.trans he)
  exact ⟨hne, hps, hd, hc, houter, hexit _ ps.reverse_perm.symm⟩

end Codel
