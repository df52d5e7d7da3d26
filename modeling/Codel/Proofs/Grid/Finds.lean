import Codel.Proofs.Grid.Cache
import Mathlib.Data.Set.Card

namespace Codel

/-- The codels that are joined to a position. -/
def Grid.region (g : Grid) (p : Pos) : Set Pos := {q | g.Connected p q}

theorem Grid.region_eq_of_connected {g : Grid} {p q : Pos} (h : g.Connected p q) :
    g.region p = g.region q := Set.ext fun _ => connected_congr h

theorem Grid.connected_self {g : Grid} {p : Pos} (h : g.contains p = true) : g.Connected p p :=
  ⟨0, .start ⟨h, rfl⟩⟩

namespace BlockCache

variable {g : Grid} {c : BlockCache g} {ps : List Pos} {p q r : Pos} {b : Block}

/-- The cache after finds at the given positions, one after the other. -/
def after (g : Grid) (ps : List Pos) : BlockCache g := ps.foldl (fun c p => (c.find p).2) (empty g)

theorem after_concat (g : Grid) (ps : List Pos) (p : Pos) :
    after g (ps ++ [p]) = ((after g ps).find p).2 := by
  unfold after
  rw [List.foldl_concat]

/-- None of the positions asked for before `q` is joined to it. -/
def First (g : Grid) (ps : List Pos) (q : Pos) : Prop :=
  ∃ earlier later, ps = earlier ++ q :: later ∧ ∀ r ∈ earlier, ¬ g.Connected q r

theorem First.concat (h : First g ps q) (p : Pos) : First g (ps ++ [p]) q := by
  obtain ⟨earlier, later, rfl, hfirst⟩ := h
  exact ⟨earlier, later ++ [p], by simp, hfirst⟩

/-- A find has a remembered block, or finds one and remembers it, or is off the grid. -/
theorem find_cases (c : BlockCache g) (p : Pos) :
    (∃ b, c.get? p = some b ∧ c.find p = (b, c)) ∨
    (c.get? p = none ∧ g.contains p = true ∧
      c.find p = (g.blockAt p, c.insert (g.blockAt p))) ∨
    (c.get? p = none ∧ g.contains p = false ∧ c.find p = (g.blockAt p, c)) := by
  unfold find
  split
  next b hget => exact Or.inl ⟨b, hget, rfl⟩
  next hget =>
    cases hp : g.contains p with
    | true => exact Or.inr (Or.inl ⟨hget, rfl, rfl⟩)
    | false => exact Or.inr (Or.inr ⟨hget, rfl, rfl⟩)

theorem find_of_not_contains (c : BlockCache g) (hp : g.contains p = false) :
    c.find p = (⟨Colour.unknown, []⟩, c) := by
  have hget : c.get? p = none := by
    unfold get?
    rw [Grid.index?_eq_none hp]
    rfl
  rcases find_cases c p with ⟨b, hb, _⟩ | ⟨_, hin, _⟩ | ⟨_, _, heq⟩
  · simp [hget] at hb
  · simp [hp] at hin
  · rw [heq, Grid.blockAt_of_not_contains hp]

theorem blocks_insert (c : BlockCache g) (b : Block) (k : Nat) :
    (c.insert b).blocks[k]? = if k = c.blocks.size then some b else c.blocks[k]? :=
  Array.getElem?_push

theorem get_marks_cases {ids : Vector (Option Nat) g.size} {i : Fin g.size} {j k : Nat}
    (h : (ps.foldl (mark k) ids).get i = some j) : j = k ∨ ids.get i = some j := by
  induction ps generalizing ids with
  | nil => exact Or.inr h
  | cons p ps ih =>
    rcases ih h with hj | hj
    · exact Or.inl hj
    · unfold mark at hj
      split at hj
      next l _ =>
        rw [get_assign] at hj
        split at hj
        · exact Or.inl (Option.some.inj hj).symm
        · exact Or.inr hj
      next => exact Or.inr hj

/-- A cache that has served the finds at `ps`. -/
structure Remembers (ps : List Pos) (c : BlockCache g) : Prop where
  valid : c.Valid
  bound : ∀ {i} {k : Nat}, c.ids.get i = some k → k < c.blocks.size
  first : ∀ {k : Nat} {b}, c.blocks[k]? = some b →
    ∃ q, g.contains q = true ∧ First g ps q ∧ b = g.blockAt q
  asked : ∀ p ∈ ps, g.contains p = true → ∃ (k : Nat) (b : Block),
    c.blocks[k]? = some b ∧ p ∈ b.codels

theorem remembers_empty (g : Grid) : Remembers [] (empty g) where
  valid := valid_empty g
  bound {i k} h := by
    change (Vector.replicate g.size none)[i.val] = some k at h
    simp at h
  first h := by simp [empty] at h
  asked := by simp

/-- A position without a remembered block is joined to none that was asked for. -/
theorem Remembers.not_connected (h : Remembers ps c) (hget : c.get? p = none) (hr : r ∈ ps) :
    ¬ g.Connected p r := by
  intro hpr
  obtain ⟨k, b, hb, hmem⟩ := h.asked r hr hpr.contains
  exact h.valid.disjoint_of_get?_none hget hb hmem (Grid.mem_blockAt_iff.mpr hpr)

theorem Remembers.insert (h : Remembers ps c) (hget : c.get? p = none)
    (hp : g.contains p = true) : Remembers (ps ++ [p]) (c.insert (g.blockAt p)) where
  valid := h.valid.insert hp hget
  bound {i k} hk := by
    change k < (c.blocks.push (g.blockAt p)).size
    rw [Array.size_push]
    rcases get_marks_cases hk with rfl | hk
    · exact Nat.lt_succ_self _
    · exact Nat.lt_succ_of_lt (h.bound hk)
  first {k b} hb := by
    rw [blocks_insert] at hb
    split at hb
    · exact ⟨p, hp, ⟨ps, [], rfl, fun r hr => h.not_connected hget hr⟩, (Option.some.inj hb).symm⟩
    · obtain ⟨q, hq, hfirst, heq⟩ := h.first hb
      exact ⟨q, hq, hfirst.concat p, heq⟩
  asked r hr hin := by
    rcases List.mem_append.mp hr with hr | hr
    · obtain ⟨k, b, hb, hmem⟩ := h.asked r hr hin
      have hk : k ≠ c.blocks.size := Nat.ne_of_lt (Array.getElem?_eq_some_iff.mp hb).1
      exact ⟨k, b, by rw [blocks_insert, if_neg hk, hb], hmem⟩
    · cases List.mem_singleton.mp hr
      exact ⟨c.blocks.size, _, by rw [blocks_insert, if_pos rfl],
        Grid.mem_blockAt_iff.mpr (Grid.connected_self hp)⟩

/-- A find that adds no block has one for its position, or none is wanted. -/
theorem Remembers.concat (h : Remembers ps c)
    (hp : g.contains p = true → ∃ b, c.get? p = some b) : Remembers (ps ++ [p]) c where
  valid := h.valid
  bound := h.bound
  first hb := by
    obtain ⟨q, hq, hfirst, heq⟩ := h.first hb
    exact ⟨q, hq, hfirst.concat p, heq⟩
  asked r hr hin := by
    rcases List.mem_append.mp hr with hr | hr
    · exact h.asked r hr hin
    · cases List.mem_singleton.mp hr
      obtain ⟨b, hget⟩ := hp hin
      obtain ⟨k, hb, hmem⟩ := h.valid.get?_eq_some_iff.mp hget
      exact ⟨k, b, hb, hmem⟩

theorem Remembers.find (h : Remembers ps c) (p : Pos) : Remembers (ps ++ [p]) (c.find p).2 := by
  rcases find_cases c p with ⟨b, hget, heq⟩ | ⟨hget, hp, heq⟩ | ⟨_, hp, heq⟩
  · rw [heq]
    exact h.concat fun _ => ⟨b, hget⟩
  · rw [heq]
    exact h.insert hget hp
  · rw [heq]
    exact h.concat fun hin => absurd (hp.symm.trans hin) Bool.false_ne_true

theorem remembers_after (g : Grid) (ps : List Pos) : Remembers ps (after g ps) := by
  induction ps using List.reverseRecOn with
  | nil => exact remembers_empty g
  | append_singleton ps p ih =>
    rw [after_concat]
    exact ih.find p

/-- A find answers with the block as it was when its region was first asked for. -/
theorem Remembers.find_eq_blockAt (h : Remembers ps c) (hp : g.contains p = true) :
    ∃ q, First g (ps ++ [p]) q ∧ g.Connected p q ∧ (c.find p).1 = g.blockAt q := by
  rcases find_cases c p with ⟨b, hget, heq⟩ | ⟨hget, _, heq⟩ | ⟨_, hout, _⟩
  · obtain ⟨k, hb, hmem⟩ := h.valid.get?_eq_some_iff.mp hget
    obtain ⟨q, _, hfirst, rfl⟩ := h.first hb
    exact ⟨q, hfirst.concat p, (Grid.mem_blockAt_iff.mp hmem).symm, by rw [heq]⟩
  · exact ⟨p, ⟨ps, [], rfl, fun r hr => h.not_connected hget hr⟩, Grid.connected_self hp,
      by rw [heq]⟩
  · simp [hp] at hout

theorem Valid.disjoint (h : c.Valid) {j k : Nat} {b b' : Block} (hb : c.blocks[j]? = some b)
    (hb' : c.blocks[k]? = some b') (hne : j ≠ k) : b.codels.Disjoint b'.codels := by
  intro q hq hq'
  obtain ⟨s, _, rfl⟩ := h.region hb
  obtain ⟨i, hi⟩ := Grid.contains_iff_index?.mp (Grid.mem_blockAt_iff.mp hq).contains
  have hj := (h.ids hi).mpr ⟨_, hb, hq⟩
  have hk := (h.ids hi).mpr ⟨_, hb', hq'⟩
  exact hne (Option.some.inj (hj.symm.trans hk))

/-- The regions of the positions asked for that lie on the grid. -/
def regionsOf (g : Grid) (ps : List Pos) : Set (Set Pos) :=
  {R | ∃ p ∈ ps, g.contains p = true ∧ R = g.region p}

/-- The positions that a block of the cache lists. -/
def listed (c : BlockCache g) (k : Nat) : Set Pos := {q | ∃ b, c.blocks[k]? = some b ∧ q ∈ b.codels}

theorem listed_eq_region {k : Nat} (hb : c.blocks[k]? = some (g.blockAt q)) :
    c.listed k = g.region q := by
  ext r
  simp [listed, Grid.region, hb, Grid.mem_blockAt_iff]

theorem Remembers.regionsOf_eq (h : Remembers ps c) :
    regionsOf g ps = c.listed '' ↑(Finset.range c.size) := by
  ext R
  simp only [regionsOf, Set.mem_ofPred_eq, Set.mem_image, Finset.coe_range, Set.mem_Iio]
  constructor
  · rintro ⟨p, hp, hin, rfl⟩
    obtain ⟨k, b, hb, hmem⟩ := h.asked p hp hin
    obtain ⟨q, _, _, rfl⟩ := h.first hb
    have hqp := Grid.mem_blockAt_iff.mp hmem
    exact ⟨k, (Array.getElem?_eq_some_iff.mp hb).1,
      (listed_eq_region hb).trans (Grid.region_eq_of_connected hqp)⟩
  · rintro ⟨k, hk, rfl⟩
    obtain ⟨q, hin, ⟨earlier, later, rfl, _⟩, heq⟩ := h.first (Array.getElem?_eq_getElem hk)
    exact ⟨q, by simp, hin, listed_eq_region (heq ▸ Array.getElem?_eq_getElem hk)⟩

/-- Every block that is remembered lists a codel that no other block does. -/
theorem Remembers.injOn_listed (h : Remembers ps c) :
    Set.InjOn c.listed ↑(Finset.range c.size) := by
  intro j hj k hk heq
  have hj : j < c.blocks.size := Finset.mem_range.mp hj
  have hk : k < c.blocks.size := Finset.mem_range.mp hk
  have hb := Array.getElem?_eq_getElem hj
  have hb' := Array.getElem?_eq_getElem hk
  obtain ⟨q, hin, _, hblock⟩ := h.first hb
  have hmem : q ∈ c.listed j :=
    ⟨_, hb, hblock ▸ Grid.mem_blockAt_iff.mpr (Grid.connected_self hin)⟩
  by_contra hne
  obtain ⟨b, hbj, hqj⟩ := hmem
  obtain ⟨b', hbk, hqk⟩ : q ∈ c.listed k := heq ▸ ⟨b, hbj, hqj⟩
  exact h.valid.disjoint hbj hbk hne hqj hqk

theorem Remembers.size_eq (h : Remembers ps c) : c.size = (regionsOf g ps).ncard := by
  rw [h.regionsOf_eq, h.injOn_listed.ncard_image, Set.ncard_coe_finset,
    Finset.card_range]

/-- What is remembered after any finds, in any order and with repeats: numbers and blocks agree,
blocks are whole regions without a codel in common, there are as many as regions were asked for, and
the next find answers with a block as it was first found. -/
theorem finds_remember_regions (g : Grid) (ps : List Pos) :
    let c := after g ps
    (∀ i k, c.ids.get i = some k → k < c.size) ∧
    (∀ p i (k : Nat), g.index? p = some i →
      (c.ids.get i = some k ↔ ∃ b, c.blocks[k]? = some b ∧ p ∈ b.codels)) ∧
    (∀ (j k : Nat) b b', c.blocks[j]? = some b → c.blocks[k]? = some b' → j ≠ k →
      b.codels.Disjoint b'.codels) ∧
    (∀ (k : Nat) b, c.blocks[k]? = some b → b.codels ≠ [] ∧ b.codels.Nodup ∧
      ∃ p, g.contains p = true ∧ b.colour = g.colourAt p ∧ {q | q ∈ b.codels} = g.region p) ∧
    c.size = (regionsOf g ps).ncard ∧
    ∀ p, (c.find p).1.Same (g.blockAt p) ∧
      (g.contains p = true →
        ∃ q, First g (ps ++ [p]) q ∧ g.Connected p q ∧ (c.find p).1 = g.blockAt q) ∧
      (g.contains p = false → c.find p = (⟨Colour.unknown, []⟩, c)) := by
  intro c
  have h : Remembers ps c := remembers_after g ps
  refine ⟨fun _ _ => h.bound, fun _ _ _ => h.valid.ids, fun _ _ _ _ => h.valid.disjoint, ?_,
    h.size_eq, fun p => ⟨(h.valid.find p).1, h.find_eq_blockAt, find_of_not_contains c⟩⟩
  intro k b hb
  obtain ⟨q, hin, _, rfl⟩ := h.first hb
  have hmem : q ∈ (g.blockAt q).codels := Grid.mem_blockAt_iff.mpr (Grid.connected_self hin)
  exact ⟨List.ne_nil_of_mem hmem, g.blockAt_nodup q, q, hin, rfl,
    Set.ext fun _ => Grid.mem_blockAt_iff⟩

end BlockCache

end Codel
