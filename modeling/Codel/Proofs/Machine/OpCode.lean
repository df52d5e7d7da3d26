import Codel.Machine.OpCode
import Mathlib.Tactic.Tauto

namespace Codel

namespace Colour

variable {c d : Colour}

/-- A chromatic colour is known by its hue and lightness. -/
theorem eq_of_cycle? {v : Fin 6 × Fin 3} (hc : c.cycle? = some v) (hd : d.cycle? = some v) :
    c = d := by
  have hindex : ∀ {e : Colour}, e.cycle? = some v → e.index = 3 * v.1.val + v.2.val := by
    intro e he
    unfold cycle? at he
    split at he
    next h =>
      cases Option.some.inj he
      dsimp only
      omega
    next => simp at he
  cases c
  cases d
  exact congrArg mk ((hindex hc).trans (hindex hd).symm)

theorem isChromatic_iff : c.isChromatic = true ↔ ∃ h l, c.cycle? = some (h, l) := by
  simp [isChromatic, Option.isSome_iff_exists]

theorem delta?_eq_none (h : ¬ (c.isChromatic = true ∧ d.isChromatic = true)) :
    c.delta? d = none := by
  unfold delta?
  split
  next hc hd => exact absurd ⟨isChromatic_iff.mpr ⟨_, _, hc⟩, isChromatic_iff.mpr ⟨_, _, hd⟩⟩ h
  next => rfl

end Colour

namespace OpCode

theorem ofDelta_eq_none_iff : ∀ (h : Fin 6) (l : Fin 3), ofDelta h l = none ↔ h = 0 ∧ l = 0 := by
  decide

/-- The step between different colours stands for no operation just if one of them has no hue. -/
theorem between_eq_none_iff {c d : Colour} (hne : c ≠ d) :
    between c d = none ↔ c.isChromatic = false ∨ d.isChromatic = false := by
  by_cases hchromatic : c.isChromatic = true ∧ d.isChromatic = true
  · obtain ⟨h, l, hc⟩ := Colour.isChromatic_iff.mp hchromatic.1
    obtain ⟨h', l', hd⟩ := Colour.isChromatic_iff.mp hchromatic.2
    have hdelta : c.delta? d = some (h' - h, l' - l) := by simp [Colour.delta?, hc, hd]
    simp only [between, hdelta, hchromatic, ofDelta_eq_none_iff, Bool.true_eq_false, or_self,
      iff_false]
    rintro ⟨hhue, hlight⟩
    have hh : h' = h := (by decide : ∀ a b : Fin 6, a - b = 0 → a = b) h' h hhue
    have hl : l' = l := (by decide : ∀ a b : Fin 3, a - b = 0 → a = b) l' l hlight
    rw [hh, hl] at hd
    exact hne (Colour.eq_of_cycle? hc hd)
  · have hdelta := Colour.delta?_eq_none hchromatic
    simp only [between, hdelta, true_iff]
    rw [Bool.eq_false_iff, Bool.eq_false_iff]
    tauto

end OpCode

end Codel
