import Codel.Palette
import Mathlib.Tactic.Linarith

namespace Codel

variable {v w : Rgb} {e k : Colour × Rgb} {rest table : List (Colour × Rgb)}

/-- The entry is nearest to a value, and nearer than all entries before it. -/
def FirstNearest (v : Rgb) (e : Colour × Rgb) (table : List (Colour × Rgb)) : Prop :=
  ∃ before after, table = before ++ e :: after ∧
    (∀ k ∈ before, v.distance e.2 < v.distance k.2) ∧
    ∀ k ∈ after, v.distance e.2 ≤ v.distance k.2

namespace FirstNearest

theorem mem (h : FirstNearest v e table) : e ∈ table := by
  obtain ⟨before, after, rfl, _⟩ := h
  simp

theorem le (h : FirstNearest v e table) (hk : k ∈ table) : v.distance e.2 ≤ v.distance k.2 := by
  obtain ⟨before, after, rfl, hbefore, hafter⟩ := h
  rcases List.mem_append.mp hk with hk | hk
  · exact (hbefore k hk).le
  · rcases List.mem_cons.mp hk with rfl | hk
    · exact le_rfl
    · exact hafter k hk

/-- An entry in front that is farther away is passed over. -/
theorem cons (h : FirstNearest v e table) (hk : v.distance e.2 < v.distance k.2) :
    FirstNearest v e (k :: table) := by
  obtain ⟨before, after, rfl, hbefore, hafter⟩ := h
  exact ⟨k :: before, after, rfl, List.forall_mem_cons.mpr ⟨hk, hbefore⟩, hafter⟩

/-- An entry that is no nearer than the first one does not count after it. -/
theorem insert_second (h : FirstNearest v e (k :: rest)) {next : Colour × Rgb}
    (hnext : v.distance k.2 ≤ v.distance next.2) : FirstNearest v e (k :: next :: rest) := by
  have hk := h.le List.mem_cons_self
  obtain ⟨before, after, heq, hbefore, hafter⟩ := h
  cases before with
  | nil =>
    obtain ⟨rfl, rfl⟩ := List.cons.inj heq
    exact ⟨[], next :: rest, rfl, by simp, List.forall_mem_cons.mpr ⟨hnext, hafter⟩⟩
  | cons first before =>
    obtain ⟨rfl, rfl⟩ := List.cons.inj heq
    obtain ⟨hfirst, hbefore⟩ := List.forall_mem_cons.mp hbefore
    refine ⟨k :: next :: before, after, rfl, ?_, hafter⟩
    exact List.forall_mem_cons.mpr ⟨hfirst, List.forall_mem_cons.mpr ⟨by omega, hbefore⟩⟩

/-- No entry further back is meant as well, and none further in front. -/
theorem unique (h : FirstNearest v e table) (h' : FirstNearest v k table) : e = k := by
  have hle := h.le h'.mem
  have hle' := h'.le h.mem
  obtain ⟨before, after, htable, hbefore, _⟩ := h
  obtain ⟨before', after', htable', hbefore', _⟩ := h'
  rcases List.append_eq_append_iff.mp (htable.symm.trans htable') with
    ⟨between, rfl, hrest⟩ | ⟨between, rfl, hrest⟩
  · cases between with
    | nil => exact (List.cons.inj hrest).1
    | cons first between =>
      obtain ⟨rfl, _⟩ := List.cons.inj hrest
      have hlt := hbefore' e (by simp)
      omega
  · cases between with
    | nil => exact (List.cons.inj hrest).1.symm
    | cons first between =>
      obtain ⟨rfl, _⟩ := List.cons.inj hrest
      have hlt := hbefore k (by simp)
      omega

end FirstNearest

section Search

theorem nearestFrom_firstNearest (v : Rgb) (e : Colour × Rgb) (rest : List (Colour × Rgb)) :
    ∃ f, f.1 = nearestFrom v (e.1, v.distance e.2) rest ∧ FirstNearest v f (e :: rest) := by
  induction rest generalizing e with
  | nil => exact ⟨e, rfl, [], [], rfl, by simp, by simp⟩
  | cons next rest ih =>
    rw [nearestFrom]
    split
    next hcloser =>
      obtain ⟨f, hf, hfirst⟩ := ih next
      have hle := hfirst.le List.mem_cons_self
      exact ⟨f, hf, hfirst.cons (by omega)⟩
    next hcloser =>
      obtain ⟨f, hf, hfirst⟩ := ih e
      exact ⟨f, hf, hfirst.insert_second (Nat.not_lt.mp hcloser)⟩

theorem nearest_firstNearest (v : Rgb) (e : Colour × Rgb) (rest : List (Colour × Rgb)) :
    ∃ f, f.1 = nearest v (e :: rest) ∧ FirstNearest v f (e :: rest) :=
  nearestFrom_firstNearest v e rest

theorem cast_channelGap (a b : UInt8) :
    (channelGap a b : Int) = (a.toNat - b.toNat) * (a.toNat - b.toNat) :=
  Int.natAbs_mul_self

theorem channelGap_eq_zero_iff {a b : UInt8} : channelGap a b = 0 ↔ a = b := by
  have hgap := cast_channelGap a b
  rw [← UInt8.toNat_inj]
  constructor
  · intro h
    rw [h] at hgap
    have hzero := mul_self_eq_zero.mp hgap.symm
    omega
  · intro h
    rw [h, sub_self, mul_zero] at hgap
    omega

theorem distance_eq_zero_iff : v.distance w = 0 ↔ v = w := by
  obtain ⟨r, g, b⟩ := v
  obtain ⟨r', g', b'⟩ := w
  simp only [Rgb.distance, Nat.add_eq_zero_iff, channelGap_eq_zero_iff, Rgb.mk.injEq, and_assoc]

/-- A value has the colour of the palette value that is nearest to it, of the first one if there are
several, and for a palette value that is itself. -/
theorem classify_firstNearest (v : Rgb) : ∃ e, e.1 = classify v ∧ FirstNearest v e palette := by
  unfold classify
  split
  next e he =>
    obtain ⟨hv, before, after, htable, hbefore⟩ := List.find?_eq_some_iff_append.mp he
    obtain rfl : e.2 = v := of_decide_eq_true hv
    have hzero : e.2.distance e.2 = 0 := distance_eq_zero_iff.mpr rfl
    refine ⟨e, rfl, before, after, htable, ?_, ?_⟩
    · intro k hk
      have hne : k.2 ≠ e.2 := by simpa using hbefore k hk
      rw [hzero]
      exact Nat.pos_of_ne_zero fun h => hne (distance_eq_zero_iff.mp h).symm
    · intro k _
      rw [hzero]
      exact Nat.zero_le _
  next => exact nearest_firstNearest v _ _

theorem classify_eq_iff {c : Colour} :
    classify v = c ↔ ∃ e, e.1 = c ∧ FirstNearest v e palette := by
  obtain ⟨e, hcolour, hfirst⟩ := classify_firstNearest v
  constructor
  · rintro rfl
    exact ⟨e, hcolour, hfirst⟩
  · rintro ⟨e', rfl, hfirst'⟩
    rw [← hcolour, hfirst.unique hfirst']

end Search

section Lookup

theorem classify_palette : ∀ e ∈ palette, classify e.2 = e.1 := by decide

/-- Takes an entry that is nearer than the best one so far; a distance of `-1` is that of none. -/
def improve (v : Rgb) (best : Colour × Int) (e : Colour × Rgb) : Colour × Int :=
  if best.2 < 0 ∨ (v.distance e.2 : Int) < best.2 then (e.1, v.distance e.2) else best

/-- The colour that a search of the whole table ends with. -/
def searched (v : Rgb) (table : List (Colour × Rgb)) : Colour :=
  (table.foldl (improve v) (.white, -1)).1

theorem foldl_improve (v : Rgb) (best : Colour) (least : Nat) (rest : List (Colour × Rgb)) :
    (rest.foldl (improve v) (best, (least : Int))).1 = nearestFrom v (best, least) rest := by
  induction rest generalizing best least with
  | nil => rfl
  | cons next rest ih =>
    have hnonneg : ¬ (least : Int) < 0 := by omega
    rw [List.foldl_cons, nearestFrom, improve]
    simp only [hnonneg, false_or, Int.ofNat_lt]
    split
    next => exact ih _ _
    next => exact ih _ _

theorem searched_eq_nearest (v : Rgb) (table : List (Colour × Rgb)) :
    searched v table = nearest v table := by
  cases table with
  | nil => rfl
  | cons first rest =>
    have hfirst : improve v (.white, -1) first = (first.1, (v.distance first.2 : Int)) :=
      if_pos (Or.inl (by decide))
    rw [searched, List.foldl_cons, hfirst]
    exact foldl_improve v first.1 (v.distance first.2) rest

/-- A value has the colour of the first palette entry nearest to it. That is what a search finds that
looks nothing up, and what every entry has that holds the value. -/
theorem lookup_changes_no_colour (v : Rgb) :
    (∃ e, e.1 = classify v ∧ FirstNearest v e palette) ∧ searched v palette = classify v ∧
      ∀ e ∈ palette, e.2 = v → e.1 = classify v := by
  obtain ⟨e, hcolour, hfirst⟩ := classify_firstNearest v
  obtain ⟨f, hsearched, hfirst'⟩ := nearest_firstNearest v _ _
  refine ⟨⟨e, hcolour, hfirst⟩, ?_, ?_⟩
  · rw [searched_eq_nearest, ← hcolour, hfirst.unique hfirst']
    exact hsearched.symm
  · rintro k hk rfl
    exact (classify_palette k hk).symm

/-- Four entries are equally near. -/
example : classify ⟨96, 96, 0⟩ = ⟨2⟩ := by decide

end Lookup

section Red

/-- Red without green and blue is the red of the palette only from halfway to the dark one on. -/
theorem le_of_classify_eq_red {r : UInt8} (h : classify ⟨r, 0, 0⟩ = .ofHue 0 1) :
    224 ≤ r.toNat := by
  have hred : ∀ e ∈ palette, e.1 = .ofHue 0 1 → e.2 = ⟨0xff, 0, 0⟩ := by decide
  have hdark : ((⟨2⟩, ⟨0xc0, 0, 0⟩) : Colour × Rgb) ∈ palette := by decide
  obtain ⟨e, hcolour, hfirst⟩ := classify_firstNearest ⟨r, 0, 0⟩
  have hle := hfirst.le hdark
  rw [hred e hfirst.mem (hcolour.trans h)] at hle
  have hgap : channelGap r 0xff ≤ channelGap r 0xc0 := by
    simpa only [Rgb.distance, Nat.add_le_add_iff_right] using hle
  have hsquares := Int.ofNat_le.mpr hgap
  rw [cast_channelGap, cast_channelGap] at hsquares
  simp only [UInt8.reduceToNat] at hsquares
  push_cast at hsquares
  have hlinear : (28161 : Int) ≤ 126 * r.toNat := by linarith
  omega

end Red

section Black

/-- Black comes last in the palette, so it wins no tie. -/
theorem classify_eq_black_iff : classify v = .black ↔
    ∀ e ∈ palette, e.1 ≠ .black → v.distance ⟨0, 0, 0⟩ < v.distance e.2 := by
  have hlast : palette.Pairwise fun e _ => e.1 ≠ .black := by decide
  have hblack : ∀ e ∈ palette, e.1 = .black → e.2 = ⟨0, 0, 0⟩ := by decide
  have hmem : (Colour.black, (⟨0, 0, 0⟩ : Rgb)) ∈ palette := by decide
  obtain ⟨e, hcolour, hfirst⟩ := classify_firstNearest v
  rw [← hcolour]
  constructor
  · intro he k hk hne
    rw [← hblack e hfirst.mem he]
    obtain ⟨before, after, htable, hbefore, _⟩ := hfirst
    rw [htable] at hk hlast
    rcases List.mem_append.mp hk with hk | hk
    · exact hbefore k hk
    · rcases List.mem_cons.mp hk with rfl | hk
      · exact absurd he hne
      · exact absurd he ((List.pairwise_cons.mp (List.pairwise_append.mp hlast).2.1).1 k hk)
  · intro hcloser
    by_contra hne
    have hlt := hcloser e hfirst.mem hne
    have hle := hfirst.le hmem
    dsimp only at hle
    omega

/-- A value that is no brighter than another one in any channel. -/
structure Rgb.Below (w v : Rgb) : Prop where
  red : w.red.toNat ≤ v.red.toNat
  green : w.green.toNat ≤ v.green.toNat
  blue : w.blue.toNat ≤ v.blue.toNat

/-- What is no brighter than a value that counts as black counts as black. -/
theorem Rgb.Below.classify_eq_black (h : w.Below v) (hv : classify v = .black) :
    classify w = .black := by
  rw [classify_eq_black_iff] at hv ⊢
  intro e he hne
  have hlt := hv e he hne
  have hred := Nat.mul_le_mul_right e.2.red.toNat h.red
  have hgreen := Nat.mul_le_mul_right e.2.green.toNat h.green
  have hblue := Nat.mul_le_mul_right e.2.blue.toNat h.blue
  unfold Rgb.distance at hlt ⊢
  zify at hlt hred hgreen hblue ⊢
  simp only [cast_channelGap, UInt8.reduceToNat] at hlt ⊢
  push_cast at hlt ⊢
  linarith

end Black

end Codel
