import Codel.Program
import Codel.Proofs.Safety.Blocks

namespace Codel

/-- A grid with codels, as many as width and height say. -/
structure Grid.Filled (g : Grid) : Prop where
  width : 1 ≤ g.width
  height : 1 ≤ g.height
  codels : (g.codels.toList.length : Int) = g.width * g.height

theorem Grid.filled_of_pos {g : Grid} (hw : 1 ≤ g.width) (hh : 1 ≤ g.height) : g.Filled := by
  refine ⟨hw, hh, ?_⟩
  rw [Vector.length_toList, Int.natCast_mul, Int.toNat_of_nonneg (by omega),
    Int.toNat_of_nonneg (by omega)]

section Rows

variable {rows : List (List Colour)} {width : Nat}

theorem unevenRow?_eq_none {y : Nat} (h : unevenRow? width y rows = none) :
    ∀ row ∈ rows, row.length = width := by
  induction rows generalizing y with
  | nil => simp
  | cons row rows ih =>
    unfold unevenRow? at h
    split at h
    next hrow =>
      intro r hr
      rcases List.mem_cons.mp hr with rfl | hr
      · exact hrow
      · exact ih h r hr
    next => simp at h

theorem getElem?_flatten {α : Type} {xss : List (List α)} (hw : 0 < width)
    (h : ∀ xs ∈ xss, xs.length = width) (i : Nat) :
    xss.flatten[i]? = xss[i / width]?.bind (·[i % width]?) := by
  induction xss generalizing i with
  | nil => simp
  | cons xs xss ih =>
    obtain ⟨hxs, hxss⟩ := List.forall_mem_cons.mp h
    rw [List.flatten_cons, List.getElem?_append, hxs]
    split
    next hi => rw [Nat.div_eq_of_lt hi, Nat.mod_eq_of_lt hi, List.getElem?_cons_zero, Option.bind_some]
    next hi =>
      have hle : width ≤ i := Nat.not_lt.mp hi
      have hdiv : i / width = (i - width) / width + 1 := Nat.div_eq_sub_div hw hle
      rw [ih hxss, hdiv, List.getElem?_cons_succ, Nat.mod_eq_sub_mod hle]

/-- What a row-major index reads is the rows one after the other. -/
theorem ofFn_eq_flatten {α : Type} {xss : List (List α)} {height : Nat} (f : Nat → Nat → α)
    (hw : 0 < width) (hheight : xss.length = height) (h : ∀ xs ∈ xss, xs.length = width)
    (hf : ∀ y < height, ∀ x < width, xss[y]?.bind (·[x]?) = some (f x y)) :
    (List.ofFn fun i : Fin (width * height) => f (i.val % width) (i.val / width)) =
      xss.flatten := by
  apply List.ext_getElem?
  intro i
  rw [List.getElem?_ofFn, getElem?_flatten hw h]
  split
  next hi => exact (hf _ (Nat.div_lt_of_lt_mul hi) _ (Nat.mod_lt i hw)).symm
  next hi =>
    have hy : xss.length ≤ i / width := by
      rw [hheight, Nat.le_div_iff_mul_le hw, Nat.mul_comm]
      exact Nat.not_lt.mp hi
    rw [List.getElem?_eq_none hy]
    rfl

theorem toList_codels_ofFn (w h : Int) (f : Nat → Nat → Colour) :
    (Grid.ofFn w h f).codels.toList =
      List.ofFn fun i : Fin (w.toNat * h.toNat) => f (i.val % w.toNat) (i.val / w.toNat) :=
  Vector.toList_ofFn

/-- The codels of rows that are equally long are the rows one after the other. -/
theorem codels_ofFn_rows (hw : 0 < width) (h : ∀ row ∈ rows, row.length = width) :
    (Grid.ofFn width rows.length fun x y =>
      ((rows.map List.toArray).toArray[y]?.bind (·[x]?)).getD Colour.unknown).codels.toList =
        rows.flatten := by
  rw [toList_codels_ofFn]
  refine ofFn_eq_flatten (fun x y => ((rows.map List.toArray).toArray[y]?.bind (·[x]?)).getD _)
    hw rfl h ?_
  intro y hy x hx
  have hrow : y < rows.length := hy
  have hcolumn : x < rows[y].length := by
    rw [h _ (List.getElem_mem hrow)]
    exact hx
  simp [hrow, hcolumn]

theorem Grid.ofRows_eq_ok {g : Grid} (h : Grid.ofRows rows = .ok g) :
    g.Filled ∧ g.codels.toList = rows.flatten := by
  unfold Grid.ofRows at h
  dsimp only at h
  split at h
  next => simp at h
  next hwidth =>
    split at h
    next => simp at h
    next heven =>
      cases Except.ok.inj h
      have hrows : rows ≠ [] := by
        rintro rfl
        exact hwidth rfl
      have hheight : 0 < rows.length := List.length_pos_iff.mpr hrows
      have hpos : 0 < (rows.headD []).length := Nat.pos_of_ne_zero hwidth
      refine ⟨filled_of_pos ?_ ?_, codels_ofFn_rows hpos (unevenRow?_eq_none heven)⟩
      · exact Int.natCast_pos.mpr hpos
      · exact Int.natCast_pos.mpr hheight

end Rows

section Pictures

/-- A picture whose bounds have two given corners, its size being their difference in 64 bits. -/
structure Raster.Bounded (r : Raster) (x₀ y₀ x₁ y₁ : Int64) : Prop where
  left : r.left = x₀.toInt
  top : r.top = y₀.toInt
  width : r.width = (x₁ - x₀).toInt
  height : r.height = (y₁ - y₀).toInt

theorem Raster.bounded_between (x₀ y₀ x₁ y₁ : Int64) (pixels : Array Pixel) :
    (between x₀ y₀ x₁ y₁ pixels).Bounded x₀ y₀ x₁ y₁ := ⟨rfl, rfl, rfl, rfl⟩

theorem toInt_sub_of_le {a b : Int64} (h : a ≤ b) (hspan : b.toInt - a.toInt < 2 ^ 63) :
    (b - a).toInt = b.toInt - a.toInt := by
  have hle := Int64.le_iff_toInt_le.mp h
  rw [Int64.toInt_sub, Int.bmod_eq_of_le (by omega) (by omega)]

variable {r : Raster} {n : Int64} {p : Program}

/-- A program that is sampled from a picture, by what is asked of the picture's size. -/
structure Raster.Sampled (r : Raster) (n : Int64) (p : Program) : Prop where
  codelSize : 1 ≤ n.toInt
  width : p.grid.width = r.width.tdiv n.toInt
  height : p.grid.height = r.height.tdiv n.toInt
  width_ne : p.grid.width ≠ 0
  height_ne : p.grid.height ≠ 0
  storable : Program.isStorable p.grid.width p.grid.height = true

theorem Program.ofRaster_eq_ok (h : Program.ofRaster r n = .ok p) : r.Sampled n p := by
  unfold Program.ofRaster at h
  dsimp only at h
  split at h
  next => simp at h
  next hn =>
    split at h
    next => simp at h
    next hsize =>
      split at h
      next => simp at h
      next hstorable =>
        cases Except.ok.inj h
        have hone : (1 : Int64).toInt ≤ n.toInt := Int64.le_iff_toInt_le.mp (Int64.not_lt.mp hn)
        obtain ⟨hw, hh⟩ := not_or.mp hsize
        exact ⟨hone, rfl, rfl, hw, hh, not_not.mp hstorable⟩

theorem Raster.Sampled.filled (h : r.Sampled n p) (hw : 0 ≤ r.width) (hh : 0 ≤ r.height) :
    p.grid.Filled := by
  have hcodel := h.codelSize
  have hwidth : 0 ≤ p.grid.width := h.width ▸ Int.tdiv_nonneg hw (by omega)
  have hheight : 0 ≤ p.grid.height := h.height ▸ Int.tdiv_nonneg hh (by omega)
  have hwidth_ne := h.width_ne
  have hheight_ne := h.height_ne
  exact Grid.filled_of_pos (by omega) (by omega)

theorem Program.size_lt_of_isStorable {g : Grid} (h : isStorable g.width g.height = true) :
    g.size < 2 ^ 63 := by
  unfold isStorable mostCodels at h
  simp only [Bool.and_eq_true, Bool.or_eq_true, decide_eq_true_eq] at h
  obtain ⟨⟨_, hmost⟩, harea⟩ := h
  by_cases hpos : 0 ≤ g.width ∧ 0 ≤ g.height
  · have hsize : (g.size : Int) = g.width * g.height := by
      rw [Int.natCast_mul, Int.toNat_of_nonneg hpos.1, Int.toNat_of_nonneg hpos.2]
    omega
  · have hzero : g.width.toNat = 0 ∨ g.height.toNat = 0 := by omega
    have hsize : g.size = 0 := Nat.mul_eq_zero.mpr hzero
    omega

/-- Room is only set aside for codels that 64 bits can number. -/
theorem Raster.Sampled.addressable (h : r.Sampled n p) : p.grid.Addressable :=
  Program.size_lt_of_isStorable h.storable

/-- Corners in order do not suffice: between the two ends of the range the bounds are one short of
all 64-bit numbers, and the difference is negative. -/
theorem picture_without_codels : ∃ (r : Raster) (x₀ y₀ x₁ y₁ : Int64) (p : Program),
    r.Bounded x₀ y₀ x₁ y₁ ∧ x₀ ≤ x₁ ∧ y₀ ≤ y₁ ∧ Program.ofRaster r 1 = .ok p ∧
      p.grid.width = -1 ∧ p.grid.height = -1 := by
  let least := Int64.minValue
  let most := Int64.maxValue
  let r := Raster.between least least most most #[]
  have hbounds : r.Bounded least least most most := Raster.bounded_between _ _ _ _ _
  have hspan : (most - least).toInt = -1 := by decide
  have hwidth : r.width = -1 := hbounds.width.trans hspan
  have hheight : r.height = -1 := hbounds.height.trans hspan
  obtain ⟨p, hp⟩ : ∃ p, Program.ofRaster r 1 = .ok p := by
    unfold Program.ofRaster
    rw [hwidth, hheight]
    exact ⟨_, rfl⟩
  have hsampled := Program.ofRaster_eq_ok hp
  refine ⟨r, least, least, most, most, p, hbounds, by decide, by decide, hp, ?_, ?_⟩
  · rw [hsampled.width, hwidth]
    rfl
  · rw [hsampled.height, hheight]
    rfl

end Pictures

/-- Where programs come from: rows of colours, or a picture. -/
inductive Program.Made : Program → Prop
  | rows {rows p} : Program.ofRows rows = .ok p → rows.flatten.length < 2 ^ 63 → Made p
  | picture {r n p} : Program.ofRaster r n = .ok p → Made p

theorem Program.ofRows_eq_ok {rows : List (List Colour)} {p : Program}
    (h : Program.ofRows rows = .ok p) : p.grid.Filled ∧ p.grid.codels.toList = rows.flatten := by
  unfold Program.ofRows at h
  cases hg : Grid.ofRows rows with
  | error e => simp [hg, Except.map] at h
  | ok g =>
    rw [hg] at h
    cases Except.ok.inj h
    exact Grid.ofRows_eq_ok hg

theorem Program.Made.addressable {p : Program} (h : p.Made) : p.grid.Addressable := by
  cases h with
  | @rows rows _ h hlength =>
    obtain ⟨_, hcodels⟩ := Program.ofRows_eq_ok h
    have hsize : rows.flatten.length = p.grid.size := by
      rw [← hcodels]
      exact Vector.length_toList
    unfold Grid.Addressable
    omega
  | picture h => exact (Program.ofRaster_eq_ok h).addressable

end Codel
