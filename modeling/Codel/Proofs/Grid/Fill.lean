import Codel.Proofs.Grid.Region
import Mathlib.Data.Fintype.Card

namespace Codel

theorem get_assign {α : Type} {n : Nat} (xs : Vector α n) (i j : Fin n) (x : α) :
    (assign xs i x).get j = if i = j then x else xs.get j := by
  change (xs.set i.val x i.isLt)[j.val] = if i = j then x else xs[j.val]
  rw [Vector.getElem_set]
  simp only [Fin.ext_iff]

namespace Fill

variable {g : Grid} {c : Colour} {s p q : Pos} {n : Nat} {f : Fill g}

def Reached (seen : Vector Bool g.size) (p : Pos) : Prop :=
  ∃ i, g.index? p = some i ∧ seen.get i = true

theorem reached_assign {seen : Vector Bool g.size} {i : Fin g.size} (hi : g.index? p = some i) :
    Reached (assign seen i true) q ↔ q = p ∨ Reached seen q := by
  unfold Reached
  constructor
  · rintro ⟨j, hj, hv⟩
    rw [get_assign] at hv
    split at hv
    next hij => exact Or.inl (Grid.index?_inj (hij ▸ hj) hi)
    next => exact Or.inr ⟨j, hj, hv⟩
  · rintro (rfl | ⟨j, hj, hv⟩)
    · exact ⟨i, hi, by simp [get_assign]⟩
    · exact ⟨j, hj, by simp [get_assign, hv]⟩

theorem not_reached_blank : ¬ Reached (blank g).seen p := by
  rintro ⟨i, _, hv⟩
  change (Vector.replicate g.size false)[i.val] = true at hv
  simp at hv

/-- An offer is either taken, the codel being new, or changes nothing. -/
theorem offer_cases (c : Colour) (f : Fill g) (p : Pos) :
    (g.Fits c p ∧ ¬ Reached f.seen p ∧
      ∃ i, g.index? p = some i ∧ f.offer c p = ⟨assign f.seen i true, p :: f.found⟩) ∨
    ((g.Fits c p → Reached f.seen p) ∧ f.offer c p = f) := by
  unfold offer
  split
  next hi =>
    refine Or.inr ⟨fun hfits => ?_, rfl⟩
    obtain ⟨i, hi'⟩ := Grid.contains_iff_index?.mp hfits.1
    simp [hi] at hi'
  next i hi =>
    have hc := Grid.colourAt_of_index? hi
    have hseen : Reached f.seen p ↔ f.seen.get i = true := by simp [Reached, hi]
    split
    next h =>
      refine Or.inl ⟨⟨Grid.contains_of_index? hi, hc.trans h.1⟩, ?_, i, hi, rfl⟩
      simp [hseen, h.2]
    next h =>
      refine Or.inr ⟨fun hfits => ?_, rfl⟩
      rw [hseen, ← Bool.not_eq_false]
      exact fun hv => h ⟨hc.symm.trans hfits.2, hv⟩

theorem reached_offer : Reached (f.offer c p).seen q ↔ Reached f.seen q ∨ q = p ∧ g.Fits c p := by
  rcases offer_cases c f p with ⟨hfits, _, i, hi, heq⟩ | ⟨hseen, heq⟩
  · rw [heq]
    simp only [reached_assign hi, hfits, and_true]
    exact Or.comm
  · rw [heq]
    refine ⟨Or.inl, ?_⟩
    rintro (h | ⟨rfl, hfits⟩)
    · exact h
    · exact hseen hfits

theorem mem_found_offer : q ∈ (f.offer c p).found ↔
    q ∈ f.found ∨ q = p ∧ g.Fits c p ∧ ¬ Reached f.seen p := by
  rcases offer_cases c f p with ⟨hfits, hnew, i, _, heq⟩ | ⟨hseen, heq⟩
  · simp only [heq, List.mem_cons, hfits, hnew, not_false_eq_true, and_true]
    exact Or.comm
  · rw [heq]
    refine ⟨Or.inl, ?_⟩
    rintro (h | ⟨_, hfits, hnew⟩)
    · exact h
    · exact absurd (hseen hfits) hnew

theorem seen_offer {i : Fin g.size} (h : f.seen.get i = true) :
    (f.offer c p).seen.get i = true := by
  rcases offer_cases c f p with ⟨_, _, j, _, heq⟩ | ⟨_, heq⟩
  · rw [heq, get_assign]
    split
    · rfl
    · exact h
  · rw [heq]
    exact h

/-- No codel of the ring is listed twice, and all of them count as reached. -/
def Distinct (f : Fill g) : Prop := f.found.Nodup ∧ ∀ q ∈ f.found, Reached f.seen q

theorem Distinct.offer (h : f.Distinct) : (f.offer c p).Distinct := by
  constructor
  · rcases offer_cases c f p with ⟨_, hnew, i, _, heq⟩ | ⟨_, heq⟩
    · rw [heq]
      exact List.nodup_cons.mpr ⟨fun hp => hnew (h.2 p hp), h.1⟩
    · rw [heq]
      exact h.1
  · intro q hq
    rw [reached_offer]
    rcases mem_found_offer.mp hq with hq | ⟨rfl, hfits, _⟩
    · exact Or.inl (h.2 q hq)
    · exact Or.inr ⟨rfl, hfits⟩

section Offers

variable {ps : List Pos}

theorem reached_offers : Reached (ps.foldl (offer c) f).seen q ↔
    Reached f.seen q ∨ q ∈ ps ∧ g.Fits c q := by
  induction ps generalizing f with
  | nil => simp
  | cons p ps ih =>
    rw [List.foldl_cons, ih, reached_offer, List.mem_cons]
    constructor
    · rintro ((h | ⟨rfl, h⟩) | ⟨hq, h⟩)
      · exact Or.inl h
      · exact Or.inr ⟨Or.inl rfl, h⟩
      · exact Or.inr ⟨Or.inr hq, h⟩
    · rintro (h | ⟨rfl | hq, h⟩)
      · exact Or.inl (Or.inl h)
      · exact Or.inl (Or.inr ⟨rfl, h⟩)
      · exact Or.inr ⟨hq, h⟩

theorem mem_found_offers : q ∈ (ps.foldl (offer c) f).found ↔
    q ∈ f.found ∨ q ∈ ps ∧ g.Fits c q ∧ ¬ Reached f.seen q := by
  induction ps generalizing f with
  | nil => simp
  | cons p ps ih =>
    rw [List.foldl_cons, ih, mem_found_offer, reached_offer, List.mem_cons]
    constructor
    · rintro ((h | ⟨rfl, h⟩) | ⟨hq, hfits, hnew⟩)
      · exact Or.inl h
      · exact Or.inr ⟨Or.inl rfl, h⟩
      · exact Or.inr ⟨Or.inr hq, hfits, fun h => hnew (Or.inl h)⟩
    · rintro (h | ⟨hq, hfits, hnew⟩)
      · exact Or.inl (Or.inl h)
      · by_cases hqp : q = p
        · subst q
          exact Or.inl (Or.inr ⟨rfl, hfits, hnew⟩)
        · exact Or.inr ⟨hq.resolve_left hqp, hfits, by simp [hnew, hqp]⟩

theorem seen_offers {i : Fin g.size} (h : f.seen.get i = true) :
    (ps.foldl (offer c) f).seen.get i = true := by
  induction ps generalizing f with
  | nil => exact h
  | cons p ps ih => exact ih (seen_offer h)

theorem Distinct.offers (h : f.Distinct) : (ps.foldl (Fill.offer c) f).Distinct := by
  induction ps generalizing f with
  | nil => exact h
  | cons p ps ih => exact ih h.offer

end Offers

theorem around_eq_offers (c : Colour) (seen : Vector Bool g.size) (ring : List Pos) :
    around c seen ring = (ring.flatMap Pos.neighbours).foldl (offer c) ⟨seen, []⟩ := by
  rw [List.foldl_flatMap]
  rfl

/-- The ring `n` steps from `s`: it lists the codels at that distance, and what has been reached are
those at that distance or nearer. -/
structure Ring (c : Colour) (s : Pos) (n : Nat) (f : Fill g) : Prop where
  nodup : f.found.Nodup
  mem_found : ∀ p, p ∈ f.found ↔ g.Away c s n p
  reached : ∀ p, Reached f.seen p ↔ ∃ m, m ≤ n ∧ g.Path c s p m

theorem first_ring (hs : g.Fits c s) : Ring c s 0 ((blank g).offer c s) where
  nodup := by
    have hblank : (blank g).Distinct := ⟨List.nodup_nil, by simp [blank]⟩
    exact hblank.offer.1
  mem_found p := by
    rw [mem_found_offer, Grid.away_zero_iff]
    simp only [show (blank g).found = [] from rfl, List.not_mem_nil, hs, not_reached_blank,
      not_false_eq_true, and_self, and_true, false_or]
  reached p := by
    rw [reached_offer]
    constructor
    · rintro (h | ⟨rfl, h⟩)
      · exact absurd h not_reached_blank
      · exact ⟨0, Nat.le_refl 0, .start h⟩
    · rintro ⟨m, hm, hpath⟩
      cases hpath with
      | start h => exact Or.inr ⟨rfl, h⟩
      | step => omega

/-- The neighbours of the codels at one distance that fit and were not reached are those one step
further out. -/
theorem Ring.away_succ_iff (h : Ring c s n f) : g.Away c s (n + 1) q ↔
    q ∈ f.found.reverse.flatMap Pos.neighbours ∧ g.Fits c q ∧ ¬ Reached f.seen q := by
  rw [Grid.away_succ_iff, h.reached]
  simp only [List.mem_flatMap, List.mem_reverse, h.mem_found, not_exists, not_and]
  constructor
  · rintro ⟨hfits, hshort, p, hp, hadj⟩
    exact ⟨⟨p, hp, (Grid.mem_neighbours_iff_adjacent hp.1.fits.1 hfits.1).mpr hadj⟩, hfits, hshort⟩
  · rintro ⟨⟨p, hp, hmem⟩, hfits, hshort⟩
    exact ⟨hfits, hshort, p, hp, (Grid.mem_neighbours_iff_adjacent hp.1.fits.1 hfits.1).mp hmem⟩

theorem Ring.around (h : Ring c s n f) :
    Ring c s (n + 1) (around c f.seen f.found.reverse) where
  nodup := by
    rw [around_eq_offers]
    have hempty : Distinct (⟨f.seen, []⟩ : Fill g) := ⟨List.nodup_nil, by simp⟩
    exact hempty.offers.1
  mem_found q := by
    rw [around_eq_offers, mem_found_offers, h.away_succ_iff]
    simp
  reached q := by
    rw [around_eq_offers, reached_offers, h.reached]
    constructor
    · rintro (⟨m, hm, hpath⟩ | ⟨hmem, hfits⟩)
      · exact ⟨m, by omega, hpath⟩
      · obtain ⟨p, hp, hq⟩ := List.mem_flatMap.mp hmem
        have hpath := ((h.mem_found p).mp (List.mem_reverse.mp hp)).1
        have hadj := (Grid.mem_neighbours_iff_adjacent hpath.fits.1 hfits.1).mp hq
        exact ⟨n + 1, Nat.le_refl _, .step hpath hadj hfits⟩
    · rintro ⟨m, hm, hpath⟩
      obtain ⟨k, hk, haway⟩ := hpath.away
      by_cases hkn : k ≤ n
      · exact Or.inl ⟨k, hkn, haway.1⟩
      · have hkeq : k = n + 1 := by omega
        subst hkeq
        obtain ⟨hmem, hfits, _⟩ := h.away_succ_iff.mp haway
        exact Or.inr ⟨hmem, hfits⟩

def unseen (seen : Vector Bool g.size) : Finset (Fin g.size) :=
  Finset.univ.filter fun i => seen.get i = false

theorem Ring.unseen_around_lt (h : Ring c s n f)
    (hne : (Fill.around c f.seen f.found.reverse).found ≠ []) :
    (unseen (Fill.around c f.seen f.found.reverse).seen).card < (unseen f.seen).card := by
  obtain ⟨q, hq⟩ := List.exists_mem_of_ne_nil _ hne
  have haway := (h.around.mem_found q).mp hq
  obtain ⟨i, hi, hseen⟩ := (h.around.reached q).mpr ⟨n + 1, Nat.le_refl _, haway.1⟩
  have hnew : ¬ Reached f.seen q := (h.away_succ_iff.mp haway).2.2
  apply Finset.card_lt_card
  rw [Finset.ssubset_iff_of_subset]
  · refine ⟨i, ?_, ?_⟩
    · simp only [unseen, Finset.mem_filter, Finset.mem_univ, true_and]
      exact Bool.eq_false_iff.mpr fun hv => hnew ⟨i, hi, hv⟩
    · simp [unseen, hseen]
  · intro j
    simp only [unseen, Finset.mem_filter, Finset.mem_univ, true_and, ← Bool.not_eq_true]
    intro hj hv
    apply hj
    rw [around_eq_offers]
    exact seen_offers hv

theorem Ring.unseen_around_lt_of_lt {most : Nat} (h : Ring c s n f)
    (hmost : (unseen f.seen).card < most + 1)
    (hne : (Fill.around c f.seen f.found.reverse).found ≠ []) :
    (unseen (Fill.around c f.seen f.found.reverse).seen).card < most := by
  have := h.unseen_around_lt hne
  omega

/-- The codels at a distance of `n` or more, each once and the nearer ones first. -/
structure Outwards (g : Grid) (c : Colour) (s : Pos) (n : Nat) (ps : List Pos) : Prop where
  nodup : ps.Nodup
  mem : ∀ p, p ∈ ps ↔ ∃ m, n ≤ m ∧ g.Away c s m p
  sorted : ps.Pairwise fun p q => ∀ a b, g.Away c s a p → g.Away c s b q → a ≤ b

theorem Ring.outwards_nil (h : Ring c s n f) (he : f.found = []) : Outwards g c s n [] where
  nodup := List.nodup_nil
  mem p := by
    refine ⟨by simp, ?_⟩
    rintro ⟨m, hm, haway⟩
    -- A codel further out would have one at this very distance on the way to it.
    obtain ⟨k, rfl⟩ := Nat.exists_eq_add_of_le hm
    obtain ⟨q, hq⟩ := haway.exists_nearer
    have hmem := (h.mem_found q).mpr hq
    simp [he] at hmem
  sorted := List.Pairwise.nil

theorem Ring.outwards_append {ps : List Pos} (h : Ring c s n f) (hps : Outwards g c s (n + 1) ps) :
    Outwards g c s n (f.found.reverse ++ ps) where
  nodup := by
    refine List.nodup_append.mpr ⟨List.nodup_reverse.mpr h.nodup, hps.nodup, ?_⟩
    intro p hp q hq hpq
    subst q
    have hn := (h.mem_found p).mp (List.mem_reverse.mp hp)
    obtain ⟨m, hm, haway⟩ := (hps.mem p).mp hq
    have := hn.unique haway
    omega
  mem p := by
    rw [List.mem_append, List.mem_reverse, h.mem_found, hps.mem]
    constructor
    · rintro (hn | ⟨m, hm, haway⟩)
      · exact ⟨n, Nat.le_refl n, hn⟩
      · exact ⟨m, by omega, haway⟩
    · rintro ⟨m, hm, haway⟩
      rcases Nat.eq_or_lt_of_le hm with rfl | hlt
      · exact Or.inl haway
      · exact Or.inr ⟨m, hlt, haway⟩
  sorted := by
    have hring : ∀ p ∈ f.found.reverse, g.Away c s n p := fun p hp =>
      (h.mem_found p).mp (List.mem_reverse.mp hp)
    refine List.pairwise_append.mpr ⟨?_, hps.sorted, ?_⟩
    · apply List.pairwise_of_forall_mem_list
      intro p hp q hq a b ha hb
      rw [ha.unique (hring p hp), hb.unique (hring q hq)]
    · intro p hp q hq a b ha hb
      obtain ⟨m, hm, haway⟩ := (hps.mem q).mp hq
      rw [ha.unique (hring p hp), hb.unique haway]
      omega

theorem rings_of_found_nil (most : Nat) (he : f.found = []) : rings c most f = [] := by
  cases most with
  | zero => rfl
  | succ most => simp [rings, he]

theorem rings_of_found_ne_nil {most : Nat} (hne : f.found ≠ []) :
    rings c (most + 1) f =
      f.found.reverse :: rings c most (Fill.around c f.seen f.found.reverse) := by
  simp [rings, hne]

/-- The rings come to an empty one before they come to their bound. -/
theorem Ring.outwards_rings {most : Nat} (h : Ring c s n f)
    (hmost : f.found ≠ [] → (unseen f.seen).card < most) :
    Outwards g c s n (rings c most f).flatten := by
  induction most generalizing n f with
  | zero =>
    have he : f.found = [] := by
      by_contra hne
      exact absurd (hmost hne) (Nat.not_lt_zero _)
    rw [rings_of_found_nil 0 he]
    exact h.outwards_nil he
  | succ most ih =>
    by_cases he : f.found = []
    · rw [rings_of_found_nil _ he]
      exact h.outwards_nil he
    · rw [rings_of_found_ne_nil he, List.flatten_cons]
      exact h.outwards_append (ih h.around (h.unseen_around_lt_of_lt (hmost he)))

theorem Ring.rings_eq {most more : Nat} (h : Ring c s n f)
    (hmost : f.found ≠ [] → (unseen f.seen).card < most) (hle : most ≤ more) :
    rings c more f = rings c most f := by
  induction most generalizing n f more with
  | zero =>
    have he : f.found = [] := by
      by_contra hne
      exact absurd (hmost hne) (Nat.not_lt_zero _)
    rw [rings_of_found_nil _ he, rings_of_found_nil _ he]
  | succ most ih =>
    by_cases he : f.found = []
    · rw [rings_of_found_nil _ he, rings_of_found_nil _ he]
    · obtain ⟨more, rfl⟩ := Nat.exists_eq_add_of_le' (show 1 ≤ more by omega)
      rw [rings_of_found_ne_nil he, rings_of_found_ne_nil he]
      congr 1
      exact ih h.around (h.unseen_around_lt_of_lt (hmost he)) (by omega)

theorem unseen_first_lt (hs : g.Fits c s) :
    (unseen ((blank g).offer c s).seen).card < g.size := by
  obtain ⟨i, _, hv⟩ := ((first_ring hs).reached s).mpr ⟨0, Nat.le_refl 0, .start hs⟩
  have hnot : i ∉ unseen ((blank g).offer c s).seen := by simp [unseen, hv]
  simpa using Finset.card_lt_univ_of_notMem hnot

end Fill

namespace Grid

variable {g : Grid} {s p : Pos}

@[simp] theorem blockAt_colour (g : Grid) (s : Pos) : (g.blockAt s).colour = g.colourAt s := rfl

theorem blockAt_of_not_contains (h : g.contains s = false) :
    g.blockAt s = ⟨Colour.unknown, []⟩ := by
  have hfound : ((Fill.blank g).offer (g.colourAt s) s).found = [] := by
    simp [Fill.offer, index?_eq_none h, Fill.blank]
  unfold blockAt
  dsimp only
  rw [Fill.rings_of_found_nil _ hfound, colourAt_of_not_contains h, List.flatten_nil]

theorem blockAt_outwards (h : g.contains s = true) :
    Fill.Outwards g (g.colourAt s) s 0 (g.blockAt s).codels := by
  have hs : g.Fits (g.colourAt s) s := ⟨h, rfl⟩
  exact (Fill.first_ring hs).outwards_rings fun _ => Fill.unseen_first_lt hs

theorem mem_blockAt_iff : p ∈ (g.blockAt s).codels ↔ g.Connected s p := by
  cases h : g.contains s with
  | true =>
    rw [(blockAt_outwards h).mem]
    constructor
    · rintro ⟨m, _, haway⟩
      exact ⟨m, haway.1⟩
    · rintro ⟨m, hpath⟩
      obtain ⟨k, _, haway⟩ := hpath.away
      exact ⟨k, Nat.zero_le k, haway⟩
  | false =>
    rw [blockAt_of_not_contains h]
    constructor
    · simp
    · rintro ⟨_, hpath⟩
      have := hpath.fits_start.1
      simp [h] at this

theorem blockAt_nodup (g : Grid) (s : Pos) : (g.blockAt s).codels.Nodup := by
  cases h : g.contains s with
  | true => exact (blockAt_outwards h).nodup
  | false =>
    rw [blockAt_of_not_contains h]
    exact List.nodup_nil

/-- A block has no more codels than its grid. -/
theorem size_blockAt_le (g : Grid) (p : Pos) : (g.blockAt p).size ≤ g.size := by
  have hindex : ∀ q ∈ (g.blockAt p).codels, ∃ i, g.index? q = some i := by
    intro q hq
    exact contains_iff_index?.mp (mem_blockAt_iff.mp hq).contains
  have hnodup : ((g.blockAt p).codels.filterMap g.index?).Nodup := by
    apply (g.blockAt_nodup p).filterMap
    intro q q' i hq hq'
    exact index?_inj hq hq'
  have hlength : ((g.blockAt p).codels.filterMap g.index?).length = (g.blockAt p).codels.length := by
    rw [List.filterMap_length_eq_length]
    intro q hq
    exact Option.isSome_iff_exists.mpr (hindex q hq)
  have hcard := hnodup.length_le_card
  rw [hlength, Fintype.card_fin] at hcard
  exact hcard

theorem blockAt_head? (h : g.contains s = true) : (g.blockAt s).codels.head? = some s := by
  have hs : g.Fits (g.colourAt s) s := ⟨h, rfl⟩
  have hfound : ((Fill.blank g).offer (g.colourAt s) s).found = [s] := by
    rcases Fill.offer_cases (g.colourAt s) (Fill.blank g) s with ⟨_, _, _, _, heq⟩ | ⟨hseen, _⟩
    · rw [heq]
      rfl
    · exact absurd (hseen hs) Fill.not_reached_blank
  obtain ⟨most, hmost⟩ := Nat.exists_eq_succ_of_ne_zero
    (Nat.ne_of_gt (Nat.zero_lt_of_lt (Fill.unseen_first_lt hs)))
  unfold blockAt
  simp only [hmost, Fill.rings_of_found_ne_nil (by simp [hfound] :
    ((Fill.blank g).offer (g.colourAt s) s).found ≠ []), hfound]
  rfl

theorem blockAt_sorted (h : g.contains s = true) :
    (g.blockAt s).codels.Pairwise fun p q => g.distance s p ≤ g.distance s q := by
  have hout := blockAt_outwards h
  refine hout.sorted.imp_of_mem fun {p q} hp hq hpq => ?_
  obtain ⟨a, _, ha⟩ := (hout.mem p).mp hp
  obtain ⟨b, _, hb⟩ := (hout.mem q).mp hq
  rw [ha.distance_eq, hb.distance_eq]
  exact hpq a b ha hb

theorem rings_of_size_le (h : g.contains s = true) {more : Nat} (hmore : g.size ≤ more) :
    (Fill.rings (g.colourAt s) more ((Fill.blank g).offer (g.colourAt s) s)).flatten =
      (g.blockAt s).codels := by
  have hs : g.Fits (g.colourAt s) s := ⟨h, rfl⟩
  rw [(Fill.first_ring hs).rings_eq (fun _ => Fill.unseen_first_lt hs) hmore]
  rfl

/-- A block is the region around its first codel, in the order of distance, and the fill comes to
its end; off the grid it is empty. -/
theorem blockAt_is_region (g : Grid) (s : Pos) :
    (g.contains s = true →
      (g.blockAt s).colour = g.colourAt s ∧
      (g.blockAt s).codels.Nodup ∧
      (g.blockAt s).codels.head? = some s ∧
      (∀ p, p ∈ (g.blockAt s).codels ↔ g.Connected s p) ∧
      (g.blockAt s).codels.Pairwise (fun p q => g.distance s p ≤ g.distance s q) ∧
      ∀ more, g.size ≤ more →
        (Fill.rings (g.colourAt s) more ((Fill.blank g).offer (g.colourAt s) s)).flatten =
          (g.blockAt s).codels) ∧
    (g.contains s = false → g.blockAt s = ⟨Colour.unknown, []⟩) := by
  refine ⟨fun h => ?_, blockAt_of_not_contains⟩
  exact ⟨blockAt_colour g s, blockAt_nodup g s, blockAt_head? h, fun _ => mem_blockAt_iff,
    blockAt_sorted h, fun _ => rings_of_size_le h⟩

end Grid

end Codel
