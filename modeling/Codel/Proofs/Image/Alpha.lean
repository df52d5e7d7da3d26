import Codel.Image.Pixel
import Codel.Proofs.Image.Nearest

namespace Codel

namespace Pixel

section Rounding

variable {v a k : Nat}

/-- A channel premultiplied by alpha and divided by it again. -/
def restored (v a : Nat) : Nat := scale v a * full / a

theorem restored_zero (v : Nat) : restored v 0 = 0 := Nat.div_zero _

theorem restored_full (v : Nat) : restored v full = v := by
  have hpos : 0 < full := by decide
  unfold restored scale
  rw [Nat.mul_div_cancel v hpos, Nat.mul_div_cancel v hpos]

/-- What a channel is at least after the way there and back: a step of the premultiplied channel has
to lie between. -/
theorem le_restored_iff (ha : 0 < a) :
    k ≤ restored v a ↔ ∃ n, k * a ≤ n * full ∧ n * full ≤ v * a := by
  have hstep : ∀ n, n ≤ scale v a ↔ n * full ≤ v * a :=
    fun n => Nat.le_div_iff_mul_le (by decide)
  unfold restored
  rw [Nat.le_div_iff_mul_le ha]
  constructor
  · intro h
    exact ⟨scale v a, h, (hstep _).mp le_rfl⟩
  · rintro ⟨n, hk, hn⟩
    exact hk.trans (Nat.mul_le_mul_right full ((hstep n).mpr hn))

theorem restored_le (v a : Nat) : restored v a ≤ v := by
  rcases Nat.eq_zero_or_pos a with rfl | ha
  · rw [restored_zero]
    exact Nat.zero_le v
  · obtain ⟨n, hlow, hhigh⟩ := (le_restored_iff ha).mp (le_refl (restored v a))
    exact Nat.le_of_mul_le_mul_right (hlow.trans hhigh) ha

theorem le_restored_add (ha : 256 ≤ a) : v ≤ restored v a + 256 := by
  have hstep : v * a < (scale v a + 1) * full := by
    rw [Nat.mul_comm (scale v a + 1)]
    exact Nat.lt_mul_div_succ _ (by decide)
  have hlow : (v - 256) * a ≤ scale v a * full := by
    have hfull : full = 65535 := rfl
    rw [Nat.sub_mul]
    rw [hfull] at hstep ⊢
    omega
  have hle : v - 256 ≤ restored v a :=
    (le_restored_iff (by omega)).mpr ⟨scale v a, hlow, Nat.div_mul_le_self _ _⟩
  omega

/-- Channels that share no divisor with full intensity come back short of what they were unless the
pixel is opaque. -/
theorem restored_lt (ha : a < full) : restored 0xe000 a < 0xe000 := by
  rcases Nat.eq_zero_or_pos a with rfl | hpos
  · rw [restored_zero]
    decide
  · by_contra hge
    obtain ⟨n, hlow, hhigh⟩ := (le_restored_iff hpos).mp (Nat.le_of_not_lt hge)
    have hfull : full = 65535 := rfl
    rw [hfull] at ha hlow hhigh
    omega

/-- Both special cases agree with the general one. -/
theorem straighten_eq (v a : Nat) : straighten v a = .ofNat (v * full / a / 256) := by
  unfold straighten
  split
  next h =>
    rw [h, Nat.mul_div_cancel v (by decide)]
  next =>
    split
    next h =>
      rw [h, Nat.div_zero]
      rfl
    next => rfl

end Rounding

section Channels

variable {v r g b a : UInt16}

/-- The upper bytes of three 16-bit channels. -/
def upper (r g b : UInt16) : Rgb := ⟨(r >>> 8).toUInt8, (g >>> 8).toUInt8, (b >>> 8).toUInt8⟩

theorem toNat_upper (v : UInt16) : (v >>> 8).toUInt8.toNat = v.toNat / 256 := by
  have hlt := v.toNat_lt
  simp only [UInt16.toNat_toUInt8, UInt16.toNat_shiftRight, UInt16.reduceToNat, Nat.reduceMod,
    Nat.shiftRight_eq_div_pow, Nat.reducePow]
  omega

/-- The byte that is read of a channel after the way there and back. -/
def darkened (v a : UInt16) : UInt8 := .ofNat (restored v.toNat a.toNat / 256)

theorem rgb_straight16 (r g b a : UInt16) :
    (straight16 r g b a).rgb = ⟨darkened r a, darkened g a, darkened b a⟩ := by
  have hbyte : ∀ v : UInt16, straighten (scale v.toNat a.toNat) a.toNat = darkened v a :=
    fun v => straighten_eq _ _
  rw [← hbyte, ← hbyte, ← hbyte]
  rfl

theorem toNat_darkened (v a : UInt16) :
    (darkened v a).toNat = restored v.toNat a.toNat / 256 := by
  have hlt := v.toNat_lt
  have hle := restored_le v.toNat a.toNat
  unfold darkened
  rw [UInt8.toNat_ofNat', Nat.mod_eq_of_lt (by omega)]

/-- A channel of which the upper byte outlasts an alpha: a step of the premultiplied channel lies
between it and the least channel with this upper byte. -/
def Outlasts (v a : UInt16) : Prop :=
  (a = 0 → v.toNat < 256) ∧
    ∃ n, v.toNat / 256 * 256 * a.toNat ≤ n * full ∧ n * full ≤ v.toNat * a.toNat

theorem darkened_eq_iff : darkened v a = (v >>> 8).toUInt8 ↔ Outlasts v a := by
  have hle := restored_le v.toNat a.toNat
  rw [← UInt8.toNat_inj, toNat_darkened, toNat_upper]
  have hbyte : restored v.toNat a.toNat / 256 = v.toNat / 256 ↔
      v.toNat / 256 * 256 ≤ restored v.toNat a.toNat := by omega
  rw [hbyte]
  unfold Outlasts
  by_cases hzero : a = 0
  · subst hzero
    change _ ≤ restored v.toNat 0 ↔ _
    rw [restored_zero]
    constructor
    · intro h
      exact ⟨fun _ => by omega, 0, by simp, by simp⟩
    · rintro ⟨h, _⟩
      have := h rfl
      omega
  · have hpos : 0 < a.toNat := by
      rw [← UInt16.toNat_inj] at hzero
      exact Nat.pos_of_ne_zero hzero
    rw [le_restored_iff hpos]
    exact (and_iff_right fun h => absurd h hzero).symm

theorem rgb_eq_upper_iff :
    (straight16 r g b a).rgb = upper r g b ↔ Outlasts r a ∧ Outlasts g a ∧ Outlasts b a := by
  rw [rgb_straight16, upper, Rgb.mk.injEq, darkened_eq_iff, darkened_eq_iff, darkened_eq_iff]

theorem outlasts_full (v : UInt16) : Outlasts v 0xffff := by
  rw [← darkened_eq_iff, ← UInt8.toNat_inj, toNat_darkened, toNat_upper]
  change restored v.toNat full / 256 = _
  rw [restored_full]

theorem colour_of_outlasts (hr : Outlasts r a) (hg : Outlasts g a) (hb : Outlasts b a) :
    (straight16 r g b a).colour = classify (upper r g b) :=
  congrArg classify (rgb_eq_upper_iff.mpr ⟨hr, hg, hb⟩)

theorem rgb_below (r g b a : UInt16) : (straight16 r g b a).rgb.Below (upper r g b) := by
  have hle : ∀ v : UInt16, (darkened v a).toNat ≤ (v >>> 8).toUInt8.toNat := by
    intro v
    rw [toNat_darkened, toNat_upper]
    exact Nat.div_le_div_right (restored_le v.toNat a.toNat)
  rw [rgb_straight16]
  exact ⟨hle r, hle g, hle b⟩

/-- A value that is no brighter than another one and in no channel darker by more than a step. -/
structure JustBelow (w v : Rgb) : Prop extends w.Below v where
  red_le : v.red.toNat ≤ w.red.toNat + 1
  green_le : v.green.toNat ≤ w.green.toNat + 1
  blue_le : v.blue.toNat ≤ w.blue.toNat + 1

theorem rgb_justBelow (r g b : UInt16) (ha : 256 ≤ a.toNat) :
    JustBelow (straight16 r g b a).rgb (upper r g b) := by
  have hbelow := rgb_below r g b a
  have hstep : ∀ v : UInt16, (v >>> 8).toUInt8.toNat ≤ (darkened v a).toNat + 1 := by
    intro v
    have hadd := le_restored_add (v := v.toNat) ha
    rw [toNat_darkened, toNat_upper]
    omega
  rw [rgb_straight16] at hbelow ⊢
  exact ⟨hbelow, hstep r, hstep g, hstep b⟩

theorem colour_transparent (r g b : UInt16) : (straight16 r g b 0).colour = .black := by
  have hzero : (straight16 r g b 0).rgb = ⟨0, 0, 0⟩ := rfl
  unfold colour
  rw [hzero]
  decide

/-- Alpha darkens, so what is black in full stays black. -/
theorem colour_eq_of_black (h : classify (upper r g b) = .black) (a : UInt16) :
    (straight16 r g b a).colour = classify (upper r g b) := by
  rw [h]
  exact (rgb_below r g b a).classify_eq_black h

/-- The least red that is no dark one is read as a dark one under every alpha but the full one. -/
theorem colour_least_red_ne (ha : a ≠ 0xffff) :
    (straight16 0xe000 0 0 a).colour ≠ classify (upper 0xe000 0 0) := by
  have hred : classify (upper 0xe000 0 0) = .ofHue 0 1 := by decide
  have hnone : darkened 0 a = 0 := by
    rw [← UInt8.toNat_inj, toNat_darkened]
    exact Nat.div_eq_of_lt (Nat.lt_of_le_of_lt (restored_le 0 a.toNat) (by decide))
  have hlt : a.toNat < full := by
    have hbound := a.toNat_lt
    have hne : a.toNat ≠ full := fun h => ha (UInt16.toNat_inj.mp h)
    have hfull : full = 65535 := rfl
    omega
  intro heq
  rw [hred, colour, rgb_straight16, hnone] at heq
  have hle := le_of_classify_eq_red heq
  have hshort := restored_lt hlt
  rw [toNat_darkened] at hle
  simp only [UInt16.reduceToNat] at hle
  omega

/-- Where alpha does not count. It never does in a pixel of straight 8-bit channels. In one of
straight 16-bit channels it does not just if the darkened value is still nearest to the same palette
value. Full alpha alone is such an alpha for all colours, and black alone is such a colour under
every alpha. Under any alpha those colours stay whose upper bytes outlast it, and from 1/256 of full
alpha on the others are a step darker at most. -/
theorem alpha_is_dropped_iff (r g b a : UInt16) :
    ((straight16 r g b a).colour = classify (upper r g b) ↔
      ∃ e, e.1 = classify (upper r g b) ∧
        FirstNearest ⟨darkened r a, darkened g a, darkened b a⟩ e palette) ∧
    ((∀ r g b, (straight16 r g b a).colour = classify (upper r g b)) ↔ a = 0xffff) ∧
    ((∀ a, (straight16 r g b a).colour = classify (upper r g b)) ↔
      classify (upper r g b) = .black) ∧
    ((straight16 r g b a).rgb = upper r g b ↔ Outlasts r a ∧ Outlasts g a ∧ Outlasts b a) ∧
    (Outlasts r a → Outlasts g a → Outlasts b a →
      (straight16 r g b a).colour = classify (upper r g b)) ∧
    (256 ≤ a.toNat → JustBelow (straight16 r g b a).rgb (upper r g b)) ∧
    ∀ r g b a : UInt8, (straight r g b a).colour = classify ⟨r, g, b⟩ := by
  refine ⟨?_, ⟨?_, ?_⟩, ⟨?_, colour_eq_of_black⟩, rgb_eq_upper_iff, colour_of_outlasts,
    rgb_justBelow r g b, fun _ _ _ _ => rfl⟩
  · rw [colour, rgb_straight16]
    exact classify_eq_iff
  · intro hall
    by_contra ha
    exact colour_least_red_ne ha (hall 0xe000 0 0)
  · rintro rfl r g b
    exact colour_of_outlasts (outlasts_full r) (outlasts_full g) (outlasts_full b)
  · intro hall
    rw [← hall 0, colour_transparent]

/-- Half transparent red, whose channels all outlast that alpha. -/
theorem alpha_is_dropped_iff_half : Outlasts 0xffff 0x8000 ∧ Outlasts 0 0x8000 ∧
    256 ≤ (0x8000 : UInt16).toNat ∧
    (straight16 0xffff 0 0 0x8000).colour = classify (upper 0xffff 0 0) ∧
    JustBelow (straight16 0xffff 0 0 0x8000).rgb (upper 0xffff 0 0) := by
  have hred : Outlasts 0xffff 0x8000 := ⟨by decide, 0x8000, by decide, by decide⟩
  have hnone : Outlasts 0 0x8000 := ⟨by decide, 0, by decide, by decide⟩
  have halpha : 256 ≤ (0x8000 : UInt16).toNat := by decide
  obtain ⟨_, _, _, _, hkept, hbelow, _⟩ := alpha_is_dropped_iff 0xffff 0 0 0x8000
  exact ⟨hred, hnone, halpha, hkept hred hnone hnone, hbelow halpha⟩

/-- Red that is wholly transparent is black, and red that lacks the last step to opaque may be dark
red. -/
theorem transparent_red_is_black :
    (straight16 0xffff 0 0 0).colour = .black ∧ classify (upper 0xffff 0 0) = .ofHue 0 1 ∧
    (straight16 0xe000 0 0 0xfffe).colour = .ofHue 0 2 ∧
    classify (upper 0xe000 0 0) = .ofHue 0 1 ∧
    ¬ ∀ r g b a : UInt16, (straight16 r g b a).colour = classify (upper r g b) := by
  have hred : classify (upper 0xffff 0 0) = .ofHue 0 1 := by decide
  refine ⟨colour_transparent 0xffff 0 0, hred, by decide, by decide, ?_⟩
  intro hall
  have heq := hall 0xffff 0 0 0
  rw [colour_transparent, hred] at heq
  exact absurd heq (by decide)

end Channels

end Pixel

end Codel
