import Codel.Proofs.Image.Nearest
import Codel.Proofs.Run.CodelSize
import Codel.Proofs.Safety.Programs

namespace Codel

section Colours

namespace Pixel

variable {p : Pixel} {v : Rgb}

/-- A pixel without transparency that has a straight 8-bit value, in whichever model. -/
def Solid (p : Pixel) (v : Rgb) : Prop :=
  p.channels = (spread v.red, spread v.green, spread v.blue, full)

theorem spread_injective : Function.Injective spread := by
  intro v w h
  unfold spread at h
  exact UInt8.toNat_inj.mp (by omega)

theorem scale_full (v : Nat) : scale v full = v := Nat.mul_div_cancel v (by decide)

theorem straighten_spread (v : UInt8) : straighten (spread v) full = v := by
  have hlt := v.toNat_lt
  have hdiv : spread v / 256 = v.toNat := by
    unfold spread
    omega
  unfold straighten
  rw [if_pos rfl, hdiv, UInt8.ofNat_toNat]

theorem Solid.rgb (h : p.Solid v) : p.rgb = v := by
  have hconverted : (⟨straighten p.channels.1 p.channels.2.2.2,
      straighten p.channels.2.1 p.channels.2.2.2,
      straighten p.channels.2.2.1 p.channels.2.2.2⟩ : Rgb) = v := by
    rw [h]
    simp only [straighten_spread]
  cases p with
  | straight r g b a =>
    -- The value is kept and not converted, so it is read off the channels.
    obtain ⟨hr, hg, hb, ha⟩ : scale (spread r) (spread a) = spread v.red ∧
        scale (spread g) (spread a) = spread v.green ∧
        scale (spread b) (spread a) = spread v.blue ∧ spread a = full := by
      simpa only [Solid, channels, Prod.mk.injEq] using h
    rw [ha, scale_full] at hr hg hb
    change (⟨r, g, b⟩ : Rgb) = v
    rw [spread_injective hr, spread_injective hg, spread_injective hb]
  | _ => exact hconverted

end Pixel

theorem classify_of_rgb? {c : Colour} {v : Rgb} (h : c.rgb? = some v) : classify v = c := by
  unfold Colour.rgb? at h
  obtain ⟨e, he, rfl⟩ := Option.map_eq_some_iff.mp h
  have hcolour : e.1 = c := by simpa using List.find?_some he
  rw [classify_palette e (List.mem_of_find?_eq_some he), hcolour]

theorem Pixel.Solid.colour {p : Pixel} {c : Colour} {v : Rgb} (h : p.Solid v)
    (hc : c.rgb? = some v) : p.colour = c := by
  unfold Pixel.colour
  rw [h.rgb, classify_of_rgb? hc]

end Colours

section Grids

variable {width height : Int} {f f' : Nat → Nat → Colour}

variable {rows : List (List Colour)} {w : Nat}

end Grids

section Size

variable {r : Raster} {n : Int64}

/-- What is sampled from a picture: as many codels as fit, each by the pixel at its top left. -/
def Raster.samples (r : Raster) (n : Int64) : Program where
  grid := Grid.ofFn (r.width / n.toInt) (r.height / n.toInt) fun x y =>
    (r.pixel (r.left + x * n.toInt) (r.top + y * n.toInt)).colour
  codelSize := n

end Size

section Reads

variable {r : Raster} {n : Int64}

end Reads

section Painting

variable {r : Raster} {n : Int64} {width : Nat} {rows : List (List Colour)}

end Painting

end Codel
