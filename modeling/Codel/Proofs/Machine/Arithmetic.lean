import Codel.Machine.InstructionSet
import Mathlib.Algebra.Group.Nat.Defs

namespace Codel

section Words

variable {a b : Int64}

theorem div_eq_ofInt (a b : Int64) : a / b = .ofInt (a.toInt.tdiv b.toInt) := by
  rw [← Int64.toInt_inj, Int64.toInt_div, Int64.toInt_ofInt]

theorem mod_eq_ofInt (a b : Int64) : a % b = .ofInt (a.toInt.tmod b.toInt) := by
  rw [← Int64.toInt_mod, Int64.ofInt_toInt]

/-- Wrapping is no matter here: the least integer divided by -1 gives itself, and that times -1 is
the least integer again. -/
theorem div_mul_add_mod (a b : Int64) : a / b * b + a % b = a := by
  calc a / b * b + a % b
      = .ofInt (a.toInt.tdiv b.toInt) * .ofInt b.toInt + .ofInt (a.toInt.tmod b.toInt) := by
        rw [div_eq_ofInt, mod_eq_ofInt, Int64.ofInt_toInt]
    _ = .ofInt (a.toInt.tdiv b.toInt * b.toInt + a.toInt.tmod b.toInt) := by
        rw [Int64.ofInt_add, Int64.ofInt_mul]
    _ = a := by rw [Int.tdiv_mul_add_tmod, Int64.ofInt_toInt]

theorem toInt_div_of_not_least (h : ¬ (a = .minValue ∧ b = -1)) :
    (a / b).toInt = a.toInt.tdiv b.toInt := by
  by_cases ha : a = .minValue
  · exact Int64.toInt_div_of_ne_right a b fun hb => h ⟨ha, hb⟩
  · exact Int64.toInt_div_of_ne_left a b ha

theorem mod_eq_zero_or_sign (a b : Int64) :
    a % b = 0 ∨ (a % b).toInt.sign = a.toInt.sign := by
  have hsign := Int.sign_tmod a.toInt b.toInt
  rw [← Int64.toInt_mod] at hsign
  split at hsign
  next =>
    left
    exact Int64.toInt_inj.mp (Int.sign_eq_zero_iff_zero.mp hsign)
  next => exact Or.inr hsign

theorem natAbs_mod_lt (a : Int64) (hb : b ≠ 0) : (a % b).toInt.natAbs < b.toInt.natAbs := by
  have hne : b.toInt ≠ 0 := fun h => hb (Int64.toInt_inj.mp h)
  rw [Int64.toInt_mod, Int.natAbs_tmod]
  exact Nat.mod_lt _ (Int.natAbs_pos.mpr hne)

end Words

namespace OpCode

variable {op : OpCode} {a b : Int64} {vs : List Int64}

/-- On any machine an operation of the usual set leaves `vs` in place of two values, the second of
which lies on top, and nothing else is changed. -/
def Leaves (op : OpCode) (a b : Int64) (vs : List Int64) : Prop :=
  ∀ (m : Machine) (s : Stack) (size : Nat),
    (InstructionSet.standard.executor op).run op size { m with stack := (s.push a).push b } =
      ({ m with stack := vs.foldl Stack.push s }, Option.none)

theorem leaves_of_arithmetic? (he : InstructionSet.standard.executor op = .arithmetic)
    (hvs : arithmetic? op a b = some vs) : op.Leaves a b vs := by
  intro m s size
  have hpop : ((s.push a).push b).pop2? = some (a, b, s) := rfl
  rw [he]
  unfold Executor.run Executor.binary
  dsimp only
  rw [hpop]
  dsimp only
  rw [hvs]

theorem leaves_add (a b : Int64) : add.Leaves a b [a + b] :=
  leaves_of_arithmetic? (by decide) (if_pos rfl)

theorem leaves_subtract (a b : Int64) : subtract.Leaves a b [a - b] :=
  leaves_of_arithmetic? (by decide) rfl

theorem leaves_multiply (a b : Int64) : multiply.Leaves a b [a * b] :=
  leaves_of_arithmetic? (by decide) rfl

theorem leaves_divide (a b : Int64) : divide.Leaves a b (if b = 0 then [] else [a / b]) :=
  leaves_of_arithmetic? (by decide) rfl

theorem leaves_mod (a b : Int64) : mod.Leaves a b (if b = 0 then [] else [a % b]) :=
  leaves_of_arithmetic? (by decide) rfl

theorem leaves_greater (a b : Int64) : greater.Leaves a b [if b < a then 1 else 0] :=
  leaves_of_arithmetic? (by decide) rfl

/-- Sums, differences and products are the exact ones modulo `2 ^ 64`, and numbers are compared with
their signs. Division by zero leaves nothing. Any other leaves the quotient truncated towards zero,
but for the least integer divided by -1, and a remainder that has the sign of what is divided; the
quotient multiplied by the divisor and the remainder added is what was divided, in any case. -/
theorem arithmetic_is_exact (a b : Int64) :
    ((∃ v, add.Leaves a b [v] ∧ v.toInt = (a.toInt + b.toInt).bmod (2 ^ 64)) ∧
      (∃ v, subtract.Leaves a b [v] ∧ v.toInt = (a.toInt - b.toInt).bmod (2 ^ 64)) ∧
      (∃ v, multiply.Leaves a b [v] ∧ v.toInt = (a.toInt * b.toInt).bmod (2 ^ 64)) ∧
      greater.Leaves a b [if b.toInt < a.toInt then 1 else 0]) ∧
    (b = 0 → divide.Leaves a b [] ∧ mod.Leaves a b []) ∧
    (b ≠ 0 → ∃ q r, divide.Leaves a b [q] ∧ mod.Leaves a b [r] ∧
      (r = 0 ∨ r.toInt.sign = a.toInt.sign) ∧ r.toInt.natAbs < b.toInt.natAbs ∧
      (¬ (a = .minValue ∧ b = -1) → q.toInt = a.toInt.tdiv b.toInt) ∧
      (a = .minValue ∧ b = -1 → q = a ∧ r = 0) ∧
      ∃ p, multiply.Leaves q b [p] ∧ add.Leaves p r [a]) := by
  refine ⟨⟨?_, ?_, ?_, ?_⟩, fun hb => ?_, fun hb => ?_⟩
  · exact ⟨a + b, leaves_add a b, Int64.toInt_add a b⟩
  · exact ⟨a - b, leaves_subtract a b, Int64.toInt_sub a b⟩
  · exact ⟨a * b, leaves_multiply a b, Int64.toInt_mul a b⟩
  · have hgreater := leaves_greater a b
    simpa only [Int64.lt_iff_toInt_lt] using hgreater
  · have hdivide := leaves_divide a b
    have hmod := leaves_mod a b
    rw [if_pos hb] at hdivide hmod
    exact ⟨hdivide, hmod⟩
  · have hdivide := leaves_divide a b
    have hmod := leaves_mod a b
    rw [if_neg hb] at hdivide hmod
    have hback := leaves_add (a / b * b) (a % b)
    rw [div_mul_add_mod] at hback
    refine ⟨a / b, a % b, hdivide, hmod, mod_eq_zero_or_sign a b, natAbs_mod_lt a hb,
      toInt_div_of_not_least, ?_, a / b * b, leaves_multiply (a / b) b, hback⟩
    rintro ⟨rfl, rfl⟩
    decide

/-- The least integer divided by -1, a negative integer divided by a positive one, and a division by
zero. -/
theorem arithmetic_is_exact_least :
    (divide.Leaves .minValue (-1) [.minValue] ∧ mod.Leaves .minValue (-1) [0] ∧
      ∃ p, multiply.Leaves .minValue (-1) [p] ∧ add.Leaves p 0 [.minValue]) ∧
    (∃ q r : Int64, divide.Leaves (-7) 2 [q] ∧ mod.Leaves (-7) 2 [r] ∧ q.toInt = -3 ∧
      (r = 0 ∨ r.toInt.sign = -1) ∧ r.toInt.natAbs < 2) ∧
    divide.Leaves 5 0 [] := by
  refine ⟨?_, ?_, ?_⟩
  · obtain ⟨q, r, hdivide, hmod, _, _, _, hleast, hback⟩ :=
      (arithmetic_is_exact .minValue (-1)).2.2 (by decide)
    obtain ⟨rfl, rfl⟩ := hleast ⟨rfl, rfl⟩
    exact ⟨hdivide, hmod, hback⟩
  · obtain ⟨q, r, hdivide, hmod, hsign, hlt, hquotient, _⟩ :=
      (arithmetic_is_exact (-7) 2).2.2 (by decide)
    exact ⟨q, r, hdivide, hmod, hquotient (by decide), hsign, hlt⟩
  · exact ((arithmetic_is_exact 5 0).2.1 rfl).1

end OpCode

end Codel
