import Codel.Proofs.Grid.Cache
import Codel.Proofs.Grid.Navigation

namespace Codel

/-- What no slice, table or division allows: an access out of range, by what was accessed, or a
division by zero. -/
inductive Fault where
  | codels
  | seen
  | ids
  | blocks
  | firstCodel
  | firstOfEdge
  | operations
  | names
  | values
  | rolled
  | divisor
deriving DecidableEq, Repr

/-- The codels of a grid can be numbered in 64 bits. -/
def Grid.Addressable (g : Grid) : Prop := g.size < 2 ^ 63

namespace Guarded

section Accesses

variable {α β σ : Type} {n : Nat} {fault : Fault}

theorem ok_bind (a : α) (f : α → Except Fault β) : (Except.ok a >>= f) = f a := rfl

def fetch (fault : Fault) (xs : Array α) (i : Int) : Except Fault α :=
  if i < 0 then .error fault else xs[i.toNat]?.elim (.error fault) .ok

def store (fault : Fault) (xs : Vector α n) (i : Int) (x : α) : Except Fault (Vector α n) :=
  if h : 0 ≤ i ∧ i < n then .ok (assign xs ⟨i.toNat, by omega⟩ x) else .error fault

theorem fetch_of_getElem? {xs : Array α} {i : Nat} {x : α} (h : xs[i]? = some x) :
    fetch fault xs i = .ok x := by
  unfold fetch
  rw [if_neg (by omega), Int.toNat_natCast, h]
  rfl

theorem fetch_vector (xs : Vector α n) (i : Fin n) :
    fetch fault xs.toArray (i.val : Int) = .ok (xs.get i) := by
  apply fetch_of_getElem?
  rw [Array.getElem?_eq_getElem (by rw [xs.size_toArray]; exact i.isLt)]
  rfl

theorem store_vector (xs : Vector α n) (i : Fin n) (x : α) :
    store fault xs (i.val : Int) x = .ok (assign xs i x) :=
  dif_pos ⟨Int.natCast_nonneg _, by omega⟩

theorem foldlM_ok {f : σ → α → Except Fault σ} {k : σ → α → σ} {xs : List α}
    (h : ∀ s, ∀ x ∈ xs, f s x = .ok (k s x)) (s : σ) : xs.foldlM f s = .ok (xs.foldl k s) := by
  induction xs generalizing s with
  | nil => rfl
  | cons x xs ih =>
    have htail : ∀ s, ∀ y ∈ xs, f s y = .ok (k s y) :=
      fun s y hy => h s y (List.mem_cons_of_mem x hy)
    rw [List.foldlM_cons, h s x List.mem_cons_self, ok_bind, ih htail, List.foldl_cons]

end Accesses

section Grids

variable {g : Grid} {p : Pos}

/-- Where a position's codel is stored if it lies on the grid, in 64-bit arithmetic. -/
def offset (g : Grid) (p : Pos) : Int64 := p.y * Int64.ofInt g.width + p.x

theorem offset_of_index? {i : Fin g.size} (hg : g.Addressable) (h : g.index? p = some i) :
    (offset g p).toInt = i.val := by
  obtain ⟨⟨hx, hxw⟩, hy, hyh⟩ := Grid.contains_iff.mp (Grid.contains_of_index? h)
  have hval := Grid.index?_val h
  have hlt : i.val < 2 ^ 63 := Nat.lt_trans i.isLt hg
  have hwidth : g.width.toNat ≤ g.size := Nat.le_mul_of_pos_right _ (by omega)
  have hcount : g.size < 2 ^ 63 := hg
  have hproduct : p.y.toInt * g.width = (p.y.toInt.toNat * g.width.toNat : Nat) := by
    rw [Int.natCast_mul, Int.toNat_of_nonneg hy, Int.toNat_of_nonneg (by omega)]
  have hw : (Int64.ofInt g.width).toInt = g.width :=
    Int64.toInt_ofInt_of_le (by omega) (by omega)
  unfold offset
  rw [Int64.toInt_add, Int64.toInt_mul, hw, Int.bmod_add_bmod, hproduct,
    Int.bmod_eq_of_le (by omega) (by omega)]
  omega

/-- The colour at a position, which is not looked up off the grid. -/
def colourAt (g : Grid) (p : Pos) : Except Fault Colour :=
  if g.contains p then fetch .codels g.codels.toArray (offset g p).toInt else .ok Colour.unknown

theorem colourAt_eq (hg : g.Addressable) (p : Pos) : colourAt g p = .ok (g.colourAt p) := by
  unfold colourAt
  cases h : g.contains p with
  | true =>
    obtain ⟨i, hi⟩ := Grid.contains_iff_index?.mp h
    rw [if_pos rfl, offset_of_index? hg hi, fetch_vector, Grid.colourAt_of_index? hi]
  | false => rw [if_neg Bool.false_ne_true, Grid.colourAt_of_not_contains h]

end Grids

section Filling

variable {g : Grid}

def offer (colour : Colour) (f : Fill g) (p : Pos) : Except Fault (Fill g) := do
  if g.contains p then
    let found ← colourAt g p
    if found = colour then
      let seen ← fetch .seen f.seen.toArray (offset g p).toInt
      if seen then return f
      else
        let marked ← store .seen f.seen (offset g p).toInt true
        return ⟨marked, p :: f.found⟩
    else return f
  else return f

theorem offer_eq (hg : g.Addressable) (colour : Colour) (f : Fill g) (p : Pos) :
    offer colour f p = .ok (f.offer colour p) := by
  unfold offer Fill.offer
  cases h : g.contains p with
  | true =>
    obtain ⟨i, hi⟩ := Grid.contains_iff_index?.mp h
    rw [if_pos rfl, colourAt_eq hg, ok_bind, offset_of_index? hg hi, fetch_vector, ok_bind,
      store_vector, hi, Grid.colourAt_of_index? hi]
    dsimp only
    by_cases hcolour : g.codels.get i = colour
    · cases hseen : f.seen.get i with
      | true =>
        rw [if_pos hcolour, if_pos rfl, if_neg (by simp)]
        rfl
      | false =>
        rw [if_pos hcolour, if_neg Bool.false_ne_true, if_pos ⟨hcolour, rfl⟩]
        rfl
    · rw [if_neg hcolour, if_neg (fun h => hcolour h.1)]
      rfl
  | false =>
    rw [if_neg Bool.false_ne_true, Grid.index?_eq_none h]
    rfl

def around (colour : Colour) (seen : Vector Bool g.size) (ring : List Pos) :
    Except Fault (Fill g) :=
  ring.foldlM (fun f p => p.neighbours.foldlM (offer colour) f) ⟨seen, []⟩

theorem around_eq (hg : g.Addressable) (colour : Colour) (seen : Vector Bool g.size)
    (ring : List Pos) : around colour seen ring = .ok (Fill.around colour seen ring) :=
  foldlM_ok (fun f _ _ => foldlM_ok (fun f q _ => offer_eq hg colour f q) f) _

def rings (colour : Colour) : (most : Nat) → Fill g → Except Fault (List (List Pos))
  | 0, _ => return []
  | most + 1, ⟨seen, found⟩ =>
    if found.isEmpty then return []
    else do
      let next ← around colour seen found.reverse
      let rest ← rings colour most next
      return found.reverse :: rest

theorem rings_eq (hg : g.Addressable) (colour : Colour) (most : Nat) (f : Fill g) :
    rings colour most f = .ok (Fill.rings colour most f) := by
  induction most generalizing f with
  | zero => rfl
  | succ most ih =>
    obtain ⟨seen, found⟩ := f
    unfold rings Fill.rings
    split
    · rfl
    · rw [around_eq hg, ok_bind, ih, ok_bind]
      rfl

def blockAt (g : Grid) (start : Pos) : Except Fault Block := do
  let colour ← colourAt g start
  let first ← offer colour (Fill.blank g) start
  let found ← rings colour g.size first
  return ⟨colour, found.flatten⟩

theorem blockAt_eq (hg : g.Addressable) (start : Pos) : blockAt g start = .ok (g.blockAt start) := by
  unfold blockAt
  rw [colourAt_eq hg, ok_bind, offer_eq hg, ok_bind, rings_eq hg, ok_bind]
  rfl

end Filling

section Caching

variable {g : Grid} {c : BlockCache g}

/-- Notes that a position belongs to block `id`, without asking whether it lies on the grid. -/
def mark (id : Nat) (ids : Vector (Option Nat) g.size) (p : Pos) :
    Except Fault (Vector (Option Nat) g.size) :=
  store .ids ids (offset g p).toInt (some id)

theorem mark_eq (hg : g.Addressable) {p : Pos} (hp : g.contains p = true) (id : Nat)
    (ids : Vector (Option Nat) g.size) : mark id ids p = .ok (BlockCache.mark id ids p) := by
  obtain ⟨i, hi⟩ := Grid.contains_iff_index?.mp hp
  unfold mark BlockCache.mark
  rw [offset_of_index? hg hi, store_vector, hi]

def insert (c : BlockCache g) (b : Block) : Except Fault (BlockCache g) := do
  let ids ← b.codels.foldlM (mark c.blocks.size) c.ids
  return ⟨ids, c.blocks.push b⟩

/-- The codels of a block lie on the grid, so all of them can be marked. -/
theorem insert_blockAt (hg : g.Addressable) (c : BlockCache g) (p : Pos) :
    insert c (g.blockAt p) = .ok (c.insert (g.blockAt p)) := by
  have hmarks : ∀ ids, ∀ q ∈ (g.blockAt p).codels,
      mark c.blocks.size ids q = .ok (BlockCache.mark c.blocks.size ids q) :=
    fun ids q hq => mark_eq hg (Grid.mem_blockAt_iff.mp hq).contains _ ids
  unfold insert
  rw [foldlM_ok hmarks, ok_bind]
  rfl

/-- The block that holds a position, by its number if it has one. -/
def cachedBlockAt (c : BlockCache g) (p : Pos) : Except Fault (Block × BlockCache g) := do
  if g.contains p then
    match ← fetch .ids c.ids.toArray (offset g p).toInt with
    | some id =>
      let b ← fetch .blocks c.blocks id
      return (b, c)
    | none =>
      let b ← blockAt g p
      let c' ← insert c b
      return (b, c')
  else
    let b ← blockAt g p
    return (b, c)

theorem cachedBlockAt_eq (hg : g.Addressable) (h : c.Valid) (p : Pos) :
    cachedBlockAt c p = .ok (c.find p) := by
  unfold cachedBlockAt BlockCache.find
  cases hp : g.contains p with
  | true =>
    obtain ⟨i, hi⟩ := Grid.contains_iff_index?.mp hp
    rw [if_pos rfl, offset_of_index? hg hi, fetch_vector, ok_bind]
    cases hid : c.ids.get i with
    | some id =>
      -- Numbers are only given to blocks that are remembered.
      obtain ⟨b, hb, _⟩ := (h.ids hi).mp hid
      have hget : c.get? p = some b := by simp [BlockCache.get?, hi, hid, hb]
      rw [hget]
      dsimp only
      rw [fetch_of_getElem? hb, ok_bind]
      rfl
    | none =>
      have hget : c.get? p = none := by simp [BlockCache.get?, hi, hid]
      rw [hget]
      dsimp only
      rw [blockAt_eq hg, ok_bind, insert_blockAt hg, ok_bind]
      rfl
  | false =>
    have hget : c.get? p = none := by simp [BlockCache.get?, Grid.index?_eq_none hp]
    rw [if_neg Bool.false_ne_true, hget, blockAt_eq hg, ok_bind]
    rfl

def find : Locator g → Pos → Except Fault (Block × Locator g)
  | .direct, p => do
    let b ← blockAt g p
    return (b, .direct)
  | .cached c, p => do
    let (b, c') ← cachedBlockAt c p
    return (b, .cached c')

theorem find_eq (hg : g.Addressable) {l : Locator g} (h : l.Valid) (p : Pos) :
    find l p = .ok (l.find p) := by
  cases l with
  | direct =>
    unfold find
    dsimp only
    rw [blockAt_eq hg, ok_bind]
    rfl
  | cached c =>
    unfold find
    dsimp only
    rw [cachedBlockAt_eq hg h, ok_bind]
    rfl

end Caching

section Leaving

variable {g : Grid} {codels : List Pos}

/-- The codels of a list that lie furthest along a direction, its first one to begin with. -/
def edge (d : Direction) (codels : List Pos) : Except Fault (List Pos) := do
  let first ← fetch .firstCodel codels.toArray 0
  let best := codels.tail.foldl (fun m q => if m < q.reach d then q.reach d else m) (first.reach d)
  return codels.filter fun q => q.reach d = best

/-- The codel that is left from, the first one of the edge to begin with. -/
def exitCodel (codels : List Pos) (d : Direction) (c : Chooser) : Except Fault Pos := do
  let ends ← edge d codels
  let first ← fetch .firstOfEdge ends.toArray 0
  return ends.tail.foldl (fun chosen q => if c.prefers d q chosen then q else chosen) first

theorem fetch_head {α : Type} {fault : Fault} (x : α) (xs : List α) :
    fetch fault (x :: xs).toArray 0 = .ok x := fetch_of_getElem? rfl

theorem edge_eq (h : codels ≠ []) (d : Direction) :
    edge d codels = .ok (Codel.edge d codels) := by
  cases codels with
  | nil => exact absurd rfl h
  | cons p ps =>
    unfold edge
    rw [fetch_head, ok_bind]
    rfl

theorem exitCodel_eq (h : codels ≠ []) (d : Direction) (c : Chooser) :
    ∃ p, exitCodel codels d c = .ok p ∧ exitCodel? codels d c = some p := by
  unfold exitCodel exitCodel?
  rw [edge_eq h, ok_bind]
  cases hedge : Codel.edge d codels with
  | nil => exact absurd hedge (edge_ne_nil h)
  | cons p ps =>
    rw [fetch_head, ok_bind]
    exact ⟨_, rfl, rfl⟩

def beyond (g : Grid) (codels : List Pos) (d : Direction) (c : Chooser) :
    Except Fault (Option Pos) := do
  let p ← exitCodel codels d c
  if g.contains (p.step d) then
    let colour ← colourAt g (p.step d)
    return if colour ≠ Colour.black then some (p.step d) else none
  else return none

theorem beyond_eq (hg : g.Addressable) (h : codels ≠ []) (d : Direction) (c : Chooser) :
    beyond g codels d c = .ok (g.beyond? codels d c) := by
  obtain ⟨p, hp, hp'⟩ := exitCodel_eq h d c
  unfold beyond Grid.beyond?
  rw [hp, hp', ok_bind, colourAt_eq hg]
  cases hin : g.contains (p.step d) with
  | true =>
    dsimp only
    rw [if_pos rfl, ok_bind, hin]
    simp only [true_and]
    rfl
  | false =>
    dsimp only
    rw [if_neg Bool.false_ne_true, hin, if_neg (by simp)]
    rfl

def navigateFrom (g : Grid) (codels : List Pos) :
    (left : Nat) → (attempt : Nat) → Direction → Chooser → Except Fault Move
  | 0, attempt, d, c => return { dp := d, cc := c, attempts := attempt, blocked := true }
  | left + 1, attempt, d, c => do
    match ← beyond g codels d c with
    | some next => return { target := next, dp := d, cc := c, attempts := attempt + 1 }
    | none => navigateFrom g codels left (attempt + 1) d.clockwise (c.retry attempt)

theorem navigateFrom_eq (hg : g.Addressable) (h : codels ≠ []) (left attempt : Nat) (d : Direction)
    (c : Chooser) :
    navigateFrom g codels left attempt d c = .ok (g.navigateFrom codels left attempt d c) := by
  induction left generalizing attempt d c with
  | zero => rfl
  | succ left ih =>
    unfold navigateFrom Grid.navigateFrom
    rw [beyond_eq hg h, ok_bind]
    cases g.beyond? codels d c with
    | some next => rfl
    | none => exact ih _ _ _

/-- The way out of a block; a block without codels has none, and its exit is not asked for. -/
def navigate (g : Grid) (codels : List Pos) (d : Direction) (c : Chooser) : Except Fault Move :=
  if codels = [] then return { dp := d, cc := c, blocked := true }
  else navigateFrom g codels maxAttempts 0 d c

theorem navigate_eq (hg : g.Addressable) (codels : List Pos) (d : Direction) (c : Chooser) :
    navigate g codels d c = .ok (g.navigate codels d c) := by
  unfold navigate Grid.navigate
  split
  next => rfl
  next h => exact navigateFrom_eq hg h _ _ d c

end Leaving

end Guarded

end Codel
