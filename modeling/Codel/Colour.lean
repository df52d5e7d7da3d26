namespace Codel

/-- A colour by its index: `3 * hue + lightness` for the chromatic ones, then white, black and
unknown. Any other index is kept and named like the unknown colour. -/
structure Colour where
  index : Int
deriving DecidableEq, Repr, Inhabited

namespace Colour

def white : Colour := ⟨18⟩
def black : Colour := ⟨19⟩
def unknown : Colour := ⟨20⟩

/-- The chromatic colour of a hue and a lightness. -/
def ofHue (hue : Fin 6) (lightness : Fin 3) : Colour := ⟨3 * hue.val + lightness.val⟩

def names : List String :=
  ["LightRed", "Red", "DarkRed", "LightYellow", "Yellow", "DarkYellow", "LightGreen", "Green",
    "DarkGreen", "LightCyan", "Cyan", "DarkCyan", "LightBlue", "Blue", "DarkBlue", "LightMagenta",
    "Magenta", "DarkMagenta", "White", "Black", "Unknown"]

def name (c : Colour) : String :=
  if c.index < 0 then "Unknown" else names[c.index.toNat]?.getD "Unknown"

/-- Hue and lightness of a chromatic colour. -/
def cycle? (c : Colour) : Option (Fin 6 × Fin 3) :=
  if h : 0 ≤ c.index ∧ c.index < 18 then
    some (⟨c.index.toNat / 3, by omega⟩, ⟨c.index.toNat % 3, by omega⟩)
  else none

def isChromatic (c : Colour) : Bool := c.cycle?.isSome

def hue? (c : Colour) : Option (Fin 6) := c.cycle?.map Prod.fst

def lightness? (c : Colour) : Option (Fin 3) := c.cycle?.map Prod.snd

/-- How far hue and lightness go round from one chromatic colour to another. -/
def delta? (c d : Colour) : Option (Fin 6 × Fin 3) :=
  match c.cycle?, d.cycle? with
  | some (h, l), some (h', l') => some (h' - h, l' - l)
  | _, _ => none

/-- A colour moved round both cycles; one without hue stays. -/
def shift (hue : Fin 6) (lightness : Fin 3) (c : Colour) : Colour :=
  match c.cycle? with
  | some (h, l) => ofHue (h + hue) (l + lightness)
  | none => c

@[simp] theorem cycle?_ofHue (h : Fin 6) (l : Fin 3) : (ofHue h l).cycle? = some (h, l) := by
  have hh := h.isLt
  have hl := l.isLt
  unfold cycle? ofHue
  rw [dif_pos (by constructor <;> simp <;> omega)]
  congr 2 <;> apply Fin.ext <;> simp <;> omega

end Colour

end Codel
