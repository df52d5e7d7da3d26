import Codel.Program
import Codel.Proofs.Grid.Navigation

namespace Codel

/-- The pointers of the tries that are left, `attempt` tries having failed. -/
def tries : (left attempt : Nat) → Direction → Chooser → List (Direction × Chooser)
  | 0, _, _, _ => []
  | left + 1, attempt, d, c => (d, c) :: tries left (attempt + 1) d.clockwise (c.retry attempt)

/-- The pointers of the first four tries. -/
def tried (d : Direction) (c : Chooser) : List (Direction × Chooser) :=
  [(d, c), (d.clockwise, c), (d.clockwise.clockwise, c.toggle),
    (d.clockwise.clockwise.clockwise, c.toggle)]

theorem tries_eq : ∀ d ∈ Direction.compass, ∀ c ∈ Chooser.both,
    tries maxAttempts 0 d c = tried d c ++ tried d c := by
  decide

theorem tried_pointers : ∀ d ∈ Direction.compass, ∀ c ∈ Chooser.both,
    ∀ q ∈ tried d c, q.1 ∈ Direction.compass ∧ q.2 ∈ Chooser.both := by
  decide

theorem mem_tried_iff : ∀ d ∈ Direction.compass, ∀ c ∈ Chooser.both,
    ∀ d' ∈ Direction.compass, ∀ c' ∈ Chooser.both,
      (d', c') ∈ tried d c ↔ (d', c'.toggle) ∉ tried d c := by
  decide

theorem Chooser.toggle_toggle : ∀ c ∈ Chooser.both, c.toggle.toggle = c := by decide

namespace Grid

variable {g : Grid} {ps : List Pos} {d : Direction} {c : Chooser}

/-- The codel beyond the exit that the pointers select is black or off the grid. -/
def Shut (g : Grid) (ps : List Pos) (d : Direction) (c : Chooser) : Prop :=
  ∀ e, exitCodel? ps d c = some e →
    g.contains (e.step d) = false ∨ g.colourAt (e.step d) = Colour.black

theorem beyond?_eq_none_iff : g.beyond? ps d c = none ↔ g.Shut ps d c := by
  unfold beyond? Shut
  split
  next hexit => simp [hexit]
  next e hexit =>
    simp only [hexit, Option.some.injEq, forall_eq']
    constructor
    · intro h
      by_contra hopen
      rw [not_or, Bool.not_eq_false] at hopen
      simp [hopen] at h
    · rintro (h | h)
      · simp [h]
      · simp [h]

theorem navigateFrom_blocked_iff (left attempt : Nat) (d : Direction) (c : Chooser) :
    (g.navigateFrom ps left attempt d c).blocked = true ↔
      ∀ q ∈ tries left attempt d c, g.Shut ps q.1 q.2 := by
  induction left generalizing attempt d c with
  | zero => simp [navigateFrom, tries]
  | succ left ih =>
    rw [navigateFrom, tries, List.forall_mem_cons, ← beyond?_eq_none_iff]
    cases hb : g.beyond? ps d c with
    | some next => simp
    | none => simpa using ih (attempt + 1) d.clockwise (c.retry attempt)

/-- A block counts as closed just if each direction is shut with the one chooser it is tried with. -/
theorem navigate_blocked_iff (hd : d ∈ Direction.compass) (hc : c ∈ Chooser.both) :
    (g.navigate ps d c).blocked = true ↔ ∀ q ∈ tried d c, g.Shut ps q.1 q.2 := by
  unfold navigate
  split
  next hnil =>
    subst hnil
    simp [Shut, exitCodel?, edge]
  next =>
    rw [navigateFrom_blocked_iff, tries_eq d hd c hc, List.forall_mem_append, and_self]

theorem shut_all_iff (hd : d ∈ Direction.compass) (hc : c ∈ Chooser.both) :
    (∀ d' ∈ Direction.compass, ∀ c' ∈ Chooser.both, g.Shut ps d' c') ↔
      ∀ q ∈ tried d c, g.Shut ps q.1 q.2 ∧ g.Shut ps q.1 q.2.toggle := by
  constructor
  · intro h q hq
    obtain ⟨hq1, hq2⟩ := tried_pointers d hd c hc q hq
    exact ⟨h q.1 hq1 q.2 hq2, h q.1 hq1 q.2.toggle (Chooser.toggle_mem_both q.2)⟩
  · intro h d' hd' c' hc'
    by_cases hq : (d', c') ∈ tried d c
    · exact (h _ hq).1
    · rw [mem_tried_iff d hd c hc d' hd' c' hc', not_not] at hq
      have hother := (h _ hq).2
      rwa [Chooser.toggle_toggle c' hc'] at hother

/-- When a block that counts as closed is closed all round: unless the tries find a way out, the
choosers that they leave out have to find none either. -/
theorem blocked_imp_shut_all_iff (g : Grid) (start : Pos) (hd : d ∈ Direction.compass)
    (hc : c ∈ Chooser.both) :
    ((g.navigate (g.blockAt start).codels d c).blocked = true →
      ∀ d' ∈ Direction.compass, ∀ c' ∈ Chooser.both, g.Shut (g.blockAt start).codels d' c') ↔
    (∃ q ∈ tried d c, ¬ g.Shut (g.blockAt start).codels q.1 q.2) ∨
      ∀ q ∈ tried d c, g.Shut (g.blockAt start).codels q.1 q.2.toggle := by
  rw [navigate_blocked_iff hd hc, shut_all_iff hd hc]
  constructor
  · intro h
    by_cases hshut : ∀ q ∈ tried d c, g.Shut (g.blockAt start).codels q.1 q.2
    · exact Or.inr fun q hq => (h hshut q hq).2
    · push Not at hshut
      exact Or.inl hshut
  · rintro (⟨q, hq, hopen⟩ | hother) hshut
    · exact absurd (hshut q hq) hopen
    · exact fun q hq => ⟨hshut q hq, hother q hq⟩

theorem blocked_imp_shut_all_iff_enclosed :
    Direction.right ∈ Direction.compass ∧ Chooser.left ∈ Chooser.both ∧
    (((Grid.ofFn 1 1 fun _ _ => .white).navigate
        ((Grid.ofFn 1 1 fun _ _ => .white).blockAt Pos.origin).codels .right .left).blocked = true →
      ∀ d' ∈ Direction.compass, ∀ c' ∈ Chooser.both, (Grid.ofFn 1 1 fun _ _ => .white).Shut
        ((Grid.ofFn 1 1 fun _ _ => .white).blockAt Pos.origin).codels d' c') := by
  have hd : Direction.right ∈ Direction.compass := by decide
  have hc : Chooser.left ∈ Chooser.both := by decide
  refine ⟨hd, hc, (blocked_imp_shut_all_iff _ Pos.origin hd hc).mpr (Or.inr ?_)⟩
  simp only [← beyond?_eq_none_iff]
  decide

/-- Two red codels, black beside the upper and green beside the lower: going right with the chooser
left, the block counts as closed though with the chooser right green can be entered. -/
theorem blocked_beside_open_exit : ∃ g : Grid,
    Grid.ofRows [[.ofHue 0 1, .black], [.ofHue 0 1, .ofHue 2 1]] = .ok g ∧
    (g.navigate (g.blockAt Pos.origin).codels .right .left).blocked = true ∧
    ¬ g.Shut (g.blockAt Pos.origin).codels .right .right := by
  refine ⟨_, rfl, by decide, ?_⟩
  rw [← beyond?_eq_none_iff]
  decide

end Grid

end Codel
