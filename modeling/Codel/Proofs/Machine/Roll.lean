import Codel.Proofs.Machine.Executor
import Mathlib.Data.Int.ModEq
import Mathlib.Data.List.Rotate

namespace Codel

theorem rotateLeft_eq_rotate {α : Type} (xs : List α) (k : Nat) : xs.rotateLeft k = xs.rotate k := by
  rw [List.rotate_eq_drop_append_take_mod]
  unfold List.rotateLeft
  dsimp only
  split
  next h =>
    match xs, h with
    | [], _ => simp
    | [x], _ => simp [Nat.mod_one]
  next => rfl

/-- Seen from the other end, what a rotation moves towards the front goes further back. -/
theorem getElem?_reverse_rotate {α : Type} {xs : List α} {i k : Nat} (hi : i < xs.length)
    (hk : k < xs.length) :
    (xs.rotate k).reverse[(i + k) % xs.length]? = xs.reverse[i]? := by
  have hlt : (i + k) % xs.length < xs.reverse.length := by
    rw [List.length_reverse]
    exact Nat.mod_lt _ (by omega)
  have hback : ((i + k) % xs.length + (xs.length - k)) % xs.length = i := by
    by_cases hround : i + k < xs.length
    · have hsum : i + k + (xs.length - k) = i + xs.length := by omega
      rw [Nat.mod_eq_of_lt hround, hsum, Nat.add_mod_right, Nat.mod_eq_of_lt hi]
    · have hsum : i + k - xs.length + (xs.length - k) = i := by omega
      have hmod : (i + k) % xs.length = i + k - xs.length := by
        rw [Nat.mod_eq_sub_mod (by omega), Nat.mod_eq_of_lt (by omega)]
      rw [hmod, hsum, Nat.mod_eq_of_lt hi]
  rw [List.reverse_rotate, Nat.mod_eq_of_lt hk, List.getElem?_rotate hlt, List.length_reverse, hback]

namespace Stack

variable {s : Stack} {depth : Int64} {top rest : List Int64}

/-- The stack after a roll, also one that its depth forbids. -/
def rolled (s : Stack) (depth rolls : Int64) : Stack := (s.roll? depth rolls).getD s

theorem isSome_roll? (s : Stack) (depth rolls : Int64) :
    (s.roll? depth rolls).isSome = true ↔ 0 < depth.toInt ∧ depth.toInt ≤ s.size := by
  unfold roll?
  by_cases h : 0 < depth.toInt ∧ depth.toInt ≤ s.size
  · rw [if_pos h]
    exact iff_of_true rfl h
  · rw [if_neg h]
    exact iff_of_false Bool.false_ne_true h

theorem rolled_of_none {rolls : Int64} (h : s.roll? depth rolls = none) :
    s.rolled depth rolls = s := by
  unfold rolled
  rw [h, Option.getD_none]

theorem rolled_of_not (h : ¬ (0 < depth.toInt ∧ depth.toInt ≤ s.size)) (rolls : Int64) :
    s.rolled depth rolls = s := by
  apply rolled_of_none
  rw [← Option.not_isSome_iff_eq_none, isSome_roll?]
  exact h

theorem exists_top (h : 0 < depth.toInt ∧ depth.toInt ≤ s.size) :
    ∃ top rest, s = ⟨top ++ rest⟩ ∧ (top.length : Int) = depth.toInt := by
  obtain ⟨hpos, hle⟩ := h
  refine ⟨s.items.take depth.toInt.toNat, s.items.drop depth.toInt.toNat, ?_, ?_⟩
  · rw [List.take_append_drop]
  · change depth.toInt ≤ s.items.length at hle
    rw [List.length_take]
    omega

theorem rolled_top (hpos : 0 < depth.toInt) (h : (top.length : Int) = depth.toInt)
    (rest : List Int64) (rolls : Int64) : (⟨top ++ rest⟩ : Stack).rolled depth rolls =
      ⟨top.rotate (rolls.toInt % depth.toInt).toNat ++ rest⟩ := by
  have hlength : depth.toInt.toNat = top.length := by omega
  have hsize : depth.toInt ≤ (⟨top ++ rest⟩ : Stack).size := by
    have happend : (⟨top ++ rest⟩ : Stack).size = top.length + rest.length := List.length_append
    omega
  unfold rolled roll?
  rw [if_pos ⟨hpos, hsize⟩]
  dsimp only
  rw [hlength, List.take_left, List.drop_left, rotateLeft_eq_rotate]
  rfl

theorem values_top (top rest : List Int64) :
    (⟨top ++ rest⟩ : Stack).values = rest.reverse ++ top.reverse := List.reverse_append

theorem size_rolled (s : Stack) (depth rolls : Int64) : (s.rolled depth rolls).size = s.size := by
  unfold rolled
  cases h : s.roll? depth rolls with
  | none => rfl
  | some t => exact size_of_roll? h

/-- The values below the depth stay, and each of those above goes `rolls` places on towards the top,
round to the deepest of them. -/
theorem values_rolled (h : 0 < depth.toInt ∧ depth.toInt ≤ s.size) (rolls : Int64) :
    (∀ j : Nat, j < s.size - depth.toInt.toNat →
      (s.rolled depth rolls).values[j]? = s.values[j]?) ∧
    ∀ i : Nat, i < depth.toInt.toNat → (s.rolled depth rolls).values[s.size - depth.toInt.toNat +
      ((i + rolls.toInt) % depth.toInt).toNat]? = s.values[s.size - depth.toInt.toNat + i]? := by
  have hpos := h.1
  obtain ⟨top, rest, rfl, htop⟩ := exists_top h
  have hlength : depth.toInt.toNat = top.length := by omega
  have hbelow : (⟨top ++ rest⟩ : Stack).size - depth.toInt.toNat = rest.reverse.length := by
    have happend : (⟨top ++ rest⟩ : Stack).size = top.length + rest.length := List.length_append
    rw [List.length_reverse]
    omega
  rw [rolled_top hpos htop, values_top, values_top, hbelow]
  constructor
  · intro j hj
    rw [List.getElem?_append_left hj, List.getElem?_append_left hj]
  · intro i hi
    rw [hlength] at hi
    have hnonneg := Int.emod_nonneg rolls.toInt (Int.ne_of_gt hpos)
    have hlt := Int.emod_lt_of_pos rolls.toInt hpos
    generalize hk : (rolls.toInt % depth.toInt).toNat = k
    have hplace : (i + rolls.toInt) % depth.toInt = ((i + k) % top.length : Nat) := by
      have hcast : (k : Int) = rolls.toInt % depth.toInt := by omega
      rw [Int.natCast_emod, Int.natCast_add, hcast, htop, Int.add_emod_emod]
    rw [List.getElem?_append_right (Nat.le_add_right _ _),
      List.getElem?_append_right (Nat.le_add_right _ _), Nat.add_sub_cancel_left,
      Nat.add_sub_cancel_left, hplace, Int.toNat_natCast]
    exact getElem?_reverse_rotate hi (by omega)

theorem rolled_rolled {a b c : Int64} (h : a.toInt + b.toInt ≡ c.toInt [ZMOD depth.toInt])
    (s : Stack) : (s.rolled depth a).rolled depth b = s.rolled depth c := by
  by_cases hdepth : 0 < depth.toInt ∧ depth.toInt ≤ s.size
  · have hpos := hdepth.1
    obtain ⟨top, rest, rfl, htop⟩ := exists_top hdepth
    have hturned : ((top.rotate (a.toInt % depth.toInt).toNat).length : Int) = depth.toInt := by
      rw [List.length_rotate, htop]
    rw [rolled_top hpos htop, rolled_top hpos hturned, rolled_top hpos htop, List.rotate_rotate]
    have ha := Int.emod_nonneg a.toInt (Int.ne_of_gt hpos)
    have hb := Int.emod_nonneg b.toInt (Int.ne_of_gt hpos)
    have hsum : ((a.toInt % depth.toInt).toNat + (b.toInt % depth.toInt).toNat) % top.length =
        (c.toInt % depth.toInt).toNat := by
      apply Int.natCast_inj.mp
      rw [Int.natCast_emod, Int.natCast_add, Int.toNat_of_nonneg ha, Int.toNat_of_nonneg hb,
        Int.toNat_of_nonneg (Int.emod_nonneg _ (Int.ne_of_gt hpos)), htop, ← Int.add_emod]
      exact h
    rw [← List.rotate_mod, hsum]
  · have hdepth' : ¬ (0 < depth.toInt ∧ depth.toInt ≤ (s.rolled depth a).size) := by
      rw [size_rolled]
      exact hdepth
    rw [rolled_of_not hdepth', rolled_of_not hdepth, rolled_of_not hdepth]

theorem rolled_eq_self {c : Int64} (h : c.toInt ≡ 0 [ZMOD depth.toInt]) (s : Stack) :
    s.rolled depth c = s := by
  by_cases hdepth : 0 < depth.toInt ∧ depth.toInt ≤ s.size
  · obtain ⟨top, rest, rfl, htop⟩ := exists_top hdepth
    have hzero : c.toInt % depth.toInt = 0 := Eq.trans h (Int.zero_emod _)
    rw [rolled_top hdepth.1 htop, hzero, Int.toNat_zero, List.rotate_zero]
  · exact rolled_of_not hdepth c

/-- A roll succeeds just if its depth is positive and there are so many values. It turns them in a
circle, so rolls of one depth are added modulo the depth. -/
theorem roll_turns_the_top (s : Stack) (depth : Int64) :
    (∀ rolls, (s.roll? depth rolls).isSome = true ↔ 0 < depth.toInt ∧ depth.toInt ≤ s.size) ∧
    (∀ rolls, s.roll? depth rolls = none → s.rolled depth rolls = s) ∧
    (∀ rolls, 0 < depth.toInt ∧ depth.toInt ≤ s.size →
      (s.rolled depth rolls).size = s.size ∧
      (∀ j : Nat, j < s.size - depth.toInt.toNat →
        (s.rolled depth rolls).values[j]? = s.values[j]?) ∧
      ∀ i : Nat, i < depth.toInt.toNat → (s.rolled depth rolls).values[s.size -
        depth.toInt.toNat + ((i + rolls.toInt) % depth.toInt).toNat]? =
          s.values[s.size - depth.toInt.toNat + i]?) ∧
    (∀ a b c : Int64, a.toInt + b.toInt ≡ c.toInt [ZMOD depth.toInt] →
      (s.rolled depth a).rolled depth b = s.rolled depth c) ∧
    (∀ c : Int64, c.toInt ≡ 0 [ZMOD depth.toInt] → s.rolled depth c = s) ∧
    ∀ (rolls : Int64) (op : OpCode) (size : Nat) (m : Machine),
      m.stack = (s.push depth).push rolls →
        Executor.roll.run op size m = ({ m with stack := s.rolled depth rolls }, none) := by
  refine ⟨s.isSome_roll? depth, fun _ h => rolled_of_none h, ?_, ?_, ?_, ?_⟩
  · intro rolls h
    exact ⟨s.size_rolled depth rolls, values_rolled h rolls⟩
  · intro a b c h
    exact rolled_rolled h s
  · intro c h
    exact rolled_eq_self h s
  · intro rolls op size m h
    have hpop : m.stack.pop2? = some (depth, rolls, s) := by
      rw [h]
      rfl
    unfold Executor.run Executor.rotate
    rw [hpop]
    rfl

/-- The least integer is 1 modulo 3. -/
example : (rolled (.ofValues [1, 2, 3, 4, 5]) 3 Int64.minValue).values = [1, 2, 5, 3, 4] ∧
    (rolled (.ofValues [1, 2, 3, 4, 5]) 3 (-1)).values = [1, 2, 4, 5, 3] ∧
    (Stack.roll? (.ofValues [1, 2]) 3 1).isSome = false := by decide

end Stack

end Codel
