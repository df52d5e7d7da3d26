import Codel.Grid.BlockCache
import Codel.Proofs.Grid.Fill

namespace Codel

/-- The same block up to the order of its codels. -/
structure Block.Same (b c : Block) : Prop where
  colour : b.colour = c.colour
  perm : b.codels.Perm c.codels

theorem Block.Same.refl (b : Block) : b.Same b := ⟨rfl, .refl _⟩

theorem Grid.blockAt_same {g : Grid} {s p : Pos} (h : g.Connected s p) :
    (g.blockAt s).Same (g.blockAt p) where
  colour := h.colourAt_eq.symm
  perm := by
    apply (List.perm_ext_iff_of_nodup (blockAt_nodup g s) (blockAt_nodup g p)).mpr
    intro q
    rw [mem_blockAt_iff, mem_blockAt_iff]
    exact connected_congr h

namespace BlockCache

variable {g : Grid} {c : BlockCache g} {p q : Pos} {b : Block}

theorem get_mark {ids : Vector (Option Nat) g.size} {i : Fin g.size} {k : Nat}
    (hi : g.index? p = some i) :
    (mark k ids q).get i = if p = q then some k else ids.get i := by
  unfold mark
  split
  next j hj =>
    have hiff : j = i ↔ p = q := by
      constructor
      · rintro rfl
        exact Grid.index?_inj hi hj
      · rintro rfl
        exact Option.some.inj (hj.symm.trans hi)
    simp only [get_assign, hiff]
  next hj =>
    have hne : p ≠ q := by
      rintro rfl
      simp [hi] at hj
    rw [if_neg hne]

theorem get_marks {ids : Vector (Option Nat) g.size} {ps : List Pos} {i : Fin g.size} {k : Nat}
    (hi : g.index? p = some i) :
    (ps.foldl (mark k) ids).get i = if p ∈ ps then some k else ids.get i := by
  induction ps generalizing ids with
  | nil => simp
  | cons q ps ih =>
    rw [List.foldl_cons, ih, get_mark hi]
    by_cases hmem : p ∈ ps
    · simp [hmem]
    · simp [hmem]

/-- Every codel is numbered by the block that lists it, and every block is a whole region. -/
structure Valid (c : BlockCache g) : Prop where
  ids : ∀ {p i} {k : Nat}, g.index? p = some i →
    (c.ids.get i = some k ↔ ∃ b, c.blocks[k]? = some b ∧ p ∈ b.codels)
  region : ∀ {k : Nat} {b}, c.blocks[k]? = some b → ∃ p, g.contains p = true ∧ b = g.blockAt p

theorem valid_empty (g : Grid) : (empty g).Valid where
  ids {p i k} _ := by
    change (Vector.replicate g.size none)[i.val] = some k ↔ _
    simp [empty]
  region h := by simp [empty] at h

theorem Valid.get?_eq_some_iff (h : c.Valid) :
    c.get? p = some b ↔ ∃ k : Nat, c.blocks[k]? = some b ∧ p ∈ b.codels := by
  constructor
  · intro hget
    obtain ⟨i, hi, hget⟩ := Option.bind_eq_some_iff.mp hget
    obtain ⟨k, hk, hb⟩ := Option.bind_eq_some_iff.mp hget
    obtain ⟨b', hb', hp⟩ := (h.ids hi).mp hk
    cases Option.some.inj (hb.symm.trans hb')
    exact ⟨k, hb, hp⟩
  · rintro ⟨k, hb, hp⟩
    obtain ⟨s, _, rfl⟩ := h.region hb
    obtain ⟨i, hi⟩ := Grid.contains_iff_index?.mp (Grid.mem_blockAt_iff.mp hp).contains
    have hk := (h.ids hi).mpr ⟨_, hb, hp⟩
    simp [get?, hi, hk, hb]

theorem Valid.same_of_get? (h : c.Valid) (hget : c.get? p = some b) : b.Same (g.blockAt p) := by
  obtain ⟨k, hb, hp⟩ := h.get?_eq_some_iff.mp hget
  obtain ⟨s, _, rfl⟩ := h.region hb
  exact Grid.blockAt_same (Grid.mem_blockAt_iff.mp hp)

/-- No remembered block shares a codel with the block of a position that has none. -/
theorem Valid.disjoint_of_get?_none (h : c.Valid) (hget : c.get? p = none) {k : Nat}
    (hb : c.blocks[k]? = some b) (hq : q ∈ b.codels) : q ∉ (g.blockAt p).codels := by
  intro hqp
  obtain ⟨s, _, rfl⟩ := h.region hb
  have hsp := (Grid.mem_blockAt_iff.mp hq).trans (Grid.mem_blockAt_iff.mp hqp).symm
  have hsome := h.get?_eq_some_iff.mpr ⟨k, hb, Grid.mem_blockAt_iff.mpr hsp⟩
  simp [hget] at hsome

theorem Valid.insert (h : c.Valid) (hp : g.contains p = true) (hget : c.get? p = none) :
    (c.insert (g.blockAt p)).Valid where
  ids {q i k} hi := by
    change ((g.blockAt p).codels.foldl (mark c.blocks.size) c.ids).get i = some k ↔
      ∃ b, (c.blocks.push (g.blockAt p))[k]? = some b ∧ q ∈ b.codels
    rw [get_marks hi, Array.getElem?_push]
    by_cases hk : k = c.blocks.size
    · subst hk
      simp only [↓reduceIte, Option.some.injEq, exists_eq_left']
      by_cases hq : q ∈ (g.blockAt p).codels
      · simp [hq]
      · -- The number of the new block is not in use, the numbers being those of blocks.
        simp [hq, h.ids hi]
    · simp only [hk, ↓reduceIte]
      by_cases hq : q ∈ (g.blockAt p).codels
      · simp only [hq, ↓reduceIte, Option.some.injEq, Ne.symm hk, false_iff, not_exists, not_and]
        intro b hb hqb
        exact h.disjoint_of_get?_none hget hb hqb hq
      · simp only [hq, ↓reduceIte]
        exact h.ids hi
  region {k b} hb := by
    change (c.blocks.push (g.blockAt p))[k]? = some b at hb
    rw [Array.getElem?_push] at hb
    split at hb
    · exact ⟨p, hp, (Option.some.inj hb).symm⟩
    · exact h.region hb

theorem Valid.find (h : c.Valid) (p : Pos) :
    (c.find p).1.Same (g.blockAt p) ∧ (c.find p).2.Valid := by
  unfold BlockCache.find
  split
  next b hget => exact ⟨h.same_of_get? hget, h⟩
  next hget =>
    dsimp only
    split
    next hp => exact ⟨.refl _, h.insert hp hget⟩
    next => exact ⟨.refl _, h⟩

end BlockCache

namespace Locator

variable {g : Grid}

def Valid : Locator g → Prop
  | direct => True
  | cached c => c.Valid

theorem valid_start (g : Grid) (cached : Bool) : (start g cached).Valid := by
  cases cached with
  | true => exact BlockCache.valid_empty g
  | false => trivial

theorem Valid.find {l : Locator g} (h : l.Valid) (p : Pos) :
    (l.find p).1.Same (g.blockAt p) ∧ (l.find p).2.Valid := by
  cases l with
  | direct => exact ⟨.refl _, trivial⟩
  | cached c => exact BlockCache.Valid.find h p

end Locator

end Codel
