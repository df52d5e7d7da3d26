import Codel.Proofs.Machine.Roll
import Codel.Proofs.Safety.Blocks
import Codel.Run.Basic
import Mathlib.Data.Fin.Basic
import Mathlib.Data.List.Rotate
import Mathlib.Data.Nat.ModEq

namespace Codel

namespace Guarded

section Decoding

/-- The operations, a row for every change of hue with an entry for every change of lightness. -/
def operations : Array (Array OpCode) :=
  #[#[OpCode.none, OpCode.push, OpCode.pop],
    #[OpCode.add, OpCode.subtract, OpCode.multiply],
    #[OpCode.divide, OpCode.mod, OpCode.not],
    #[OpCode.greater, OpCode.pointer, OpCode.switch],
    #[OpCode.duplicate, OpCode.roll, OpCode.inNumber],
    #[OpCode.inChar, OpCode.outNumber, OpCode.outChar]]

/-- How far it is from `a` to `b` round a cycle of `n`; the remainder takes the sign of the
dividend. -/
def change {n : Nat} (a b : Fin n) : Int := ((b.val : Int) - a.val + n).tmod n

theorem change_eq {n : Nat} (a b : Fin n) : change a b = (b - a).val := by
  have ha := a.isLt
  have hdividend : (b.val : Int) - a.val + n = (n - a.val + b.val : Nat) := by omega
  unfold change
  rw [hdividend, Int.tmod_eq_emod_of_nonneg (Int.natCast_nonneg _), Fin.sub_def,
    Int.natCast_emod]

theorem fetch_operations (hue : Fin 6) (lightness : Fin 3) :
    ∃ row, operations[hue.val]? = some row ∧
      row[lightness.val]? = some (OpCode.ofDelta hue lightness) := by
  have htable : ∀ (hue : Fin 6) (lightness : Fin 3),
      operations[hue.val]?.bind (·[lightness.val]?) = some (OpCode.ofDelta hue lightness) := by
    decide
  exact Option.bind_eq_some_iff.mp (htable hue lightness)

def decode (c d : Colour) : Except Fault OpCode :=
  match c.cycle?, d.cycle? with
  | some (h, l), some (h', l') => do
    let row ← fetch .operations operations (change h h')
    fetch .operations row (change l l')
  | _, _ => return OpCode.none

theorem decode_eq (c d : Colour) : decode c d = .ok (OpCode.between c d) := by
  unfold decode OpCode.between Colour.delta?
  cases c.cycle? with
  | none => rfl
  | some v =>
    cases d.cycle? with
    | none => rfl
    | some v' =>
      obtain ⟨row, hrow, hentry⟩ := fetch_operations (v'.1 - v.1) (v'.2 - v.2)
      dsimp only
      rw [change_eq, fetch_of_getElem? hrow, ok_bind, change_eq, fetch_of_getElem? hentry]

def instruction (b c : Block) : Except Fault Instruction := do
  let op ← decode b.colour c.colour
  return { Instruction.between b c with op := op }

theorem instruction_eq (b c : Block) : instruction b c = .ok (Instruction.between b c) := by
  unfold instruction
  rw [decode_eq, ok_bind]
  rfl

end Decoding

section Dividing

/-- Asks of a divisor that it is not zero. Divisors that are fixed numbers, such as that of the four
directions, are not asked about. -/
def divisor (b : Int) : Except Fault Unit := if b = 0 then .error .divisor else .ok ()

theorem divisor_eq {b : Int} (h : b ≠ 0) : divisor b = .ok () := if_neg h

def arithmetic? (op : OpCode) (a b : Int64) : Except Fault (Option (List Int64)) :=
  if op = OpCode.divide ∧ b ≠ 0 then do
    divisor b.toInt
    return some [a / b]
  else if op = OpCode.mod ∧ b ≠ 0 then do
    divisor b.toInt
    return some [a % b]
  else return Codel.arithmetic? op a b

theorem arithmetic?_eq (op : OpCode) (a b : Int64) :
    arithmetic? op a b = .ok (Codel.arithmetic? op a b) := by
  have hdivisor : b ≠ 0 → divisor b.toInt = .ok () := by
    intro hb
    apply divisor_eq
    exact fun hzero => hb (Int64.toInt.inj hzero)
  unfold arithmetic?
  split
  next h =>
    obtain ⟨rfl, hb⟩ := h
    have hquotient : Codel.arithmetic? OpCode.divide a b = some [a / b] := by
      unfold Codel.arithmetic?
      simp [hb, OpCode.divide, OpCode.add, OpCode.subtract, OpCode.multiply]
    rw [hdivisor hb, ok_bind, hquotient]
    rfl
  next =>
    split
    next h =>
      obtain ⟨rfl, hb⟩ := h
      have hremainder : Codel.arithmetic? OpCode.mod a b = some [a % b] := by
        unfold Codel.arithmetic?
        simp [hb, OpCode.mod, OpCode.divide, OpCode.add, OpCode.subtract, OpCode.multiply]
      rw [hdivisor hb, ok_bind, hremainder]
      rfl
    next => rfl

def binary (op : OpCode) (m : Machine) : Except Fault Machine :=
  match m.stack.pop2? with
  | some (a, b, rest) => do
    match ← arithmetic? op a b with
    | some vs => return { m with stack := vs.foldl Stack.push rest }
    | none => return m
  | none => return m

theorem binary_eq (op : OpCode) (m : Machine) : binary op m = .ok (Executor.binary op m) := by
  unfold binary Executor.binary
  cases m.stack.pop2? with
  | none => rfl
  | some v =>
    dsimp only
    rw [arithmetic?_eq, ok_bind]
    cases Codel.arithmetic? op v.1 v.2.1 with
    | none => rfl
    | some vs => rfl

end Dividing

section Rolling

variable {n : Nat}

/-- Takes values off a stack into the first `left` entries of a slice, the top one last. -/
def takeInto : (left : Nat) → Stack → Vector Int64 n → Except Fault (Stack × Vector Int64 n)
  | 0, s, values => return (s, values)
  | left + 1, s, values => do
    let (v, rest) := s.pop?.getD (0, s)
    let values ← store .values values left v
    takeInto left rest values

/-- Rolls reduced to less than the depth; the remainder takes the sign of the dividend. -/
def reduced (depth rolls : Int) : Int :=
  if rolls.tmod depth < 0 then rolls.tmod depth + depth else rolls.tmod depth

def rolled (depth rolls : Int) (values : Vector Int64 n) : Except Fault (Vector Int64 n) := do
  divisor depth
  (List.finRange n).foldlM (fun out i => do
    divisor depth
    store .rolled out ((i.val + reduced depth rolls).tmod depth) (values.get i))
    (Vector.replicate n 0)

def rollTop (depth : Nat) (rolls : Int) (s : Stack) : Except Fault Stack := do
  let (rest, values) ← takeInto depth s (Vector.replicate depth 0)
  let out ← rolled depth rolls values
  return out.toList.foldl Stack.push rest

/-- Rotates the top `depth` values; none if there are not so many. -/
def roll? (s : Stack) (depth rolls : Int64) : Except Fault (Option Stack) :=
  if depth.toInt ≤ 0 ∨ s.size < depth.toInt then return none
  else some <$> rollTop depth.toInt.toNat rolls.toInt s

theorem reduced_eq {depth : Int} (h : 0 < depth) (rolls : Int) :
    reduced depth rolls = rolls % depth := by
  have hmod : rolls % depth =
      rolls.tmod depth + if 0 ≤ rolls ∨ depth ∣ rolls then 0 else depth.natAbs := by
    have := Int.tmod_eq_emod (a := rolls) (b := depth)
    omega
  have hnonneg := Int.emod_nonneg rolls (Int.ne_of_gt h)
  have hlt := Int.emod_lt_of_pos rolls h
  unfold reduced
  split_ifs at * <;> omega

/-- What 64-bit arithmetic makes of the entry that the `i`-th of the rolled values goes to. -/
def wordEntry (depth rolls : Int64) (i : Nat) : Int64 :=
  (Int64.ofNat i + if rolls % depth < 0 then rolls % depth + depth else rolls % depth) % depth

/-- Nothing goes round for a depth up to half of the range; no more values fit into 64-bit memory. -/
theorem toInt_wordEntry {depth rolls : Int64} {i : Nat} (hi : i < depth.toInt)
    (hdepth : depth.toInt ≤ 2 ^ 62) : (wordEntry depth rolls i).toInt =
      (i + reduced depth.toInt rolls.toInt).tmod depth.toInt := by
  have hpos : 0 < depth.toInt := by omega
  have hr : (rolls % depth).toInt = rolls.toInt.tmod depth.toInt := Int64.toInt_mod _ _
  have hreduced : (if rolls % depth < 0 then rolls % depth + depth else rolls % depth).toInt =
      reduced depth.toInt rolls.toInt := by
    have hneg : rolls % depth < 0 ↔ rolls.toInt.tmod depth.toInt < 0 := by
      rw [Int64.lt_iff_toInt_lt, hr]
      rfl
    have hlt := Int.lt_tmod_of_pos rolls.toInt hpos
    unfold reduced
    simp only [hneg]
    split
    next h => rw [Int64.toInt_add, hr, Int.bmod_eq_of_le (by omega) (by omega)]
    next => exact hr
  have hnonneg := Int.emod_nonneg rolls.toInt (Int.ne_of_gt hpos)
  have hlt := Int.emod_lt_of_pos rolls.toInt hpos
  unfold wordEntry
  rw [Int64.toInt_mod, Int64.toInt_add, hreduced, reduced_eq hpos,
    Int64.toInt_ofNat_of_lt (by omega), Int.bmod_eq_of_le (by omega) (by omega)]

/-- What is taken stands in the slice from the deepest value on. -/
theorem takeInto_eq {left : Nat} (s : Stack) (values : Vector Int64 n) (hn : left ≤ n)
    (hs : left ≤ s.size) : ∃ out : Vector Int64 n,
    takeInto left s values = .ok (⟨s.items.drop left⟩, out) ∧
      out.toList = (s.items.take left).reverse ++ values.toList.drop left := by
  induction left generalizing s values with
  | zero => exact ⟨values, rfl, rfl⟩
  | succ left ih =>
    obtain ⟨items⟩ := s
    cases items with
    | nil => exact absurd hs (Nat.not_succ_le_zero left)
    | cons v rest =>
      -- The top value takes the last entry still open; the deeper ones go in front of it.
      have hstore : store .values values (left : Int) v = .ok (assign values ⟨left, hn⟩ v) :=
        store_vector values ⟨left, hn⟩ v
      obtain ⟨out, hout, hlist⟩ := ih ⟨rest⟩ (assign values ⟨left, hn⟩ v) (Nat.le_of_succ_le hn)
        (Nat.le_of_succ_le_succ hs)
      have hdrop : (assign values ⟨left, hn⟩ v).toList.drop left =
          v :: values.toList.drop (left + 1) := by
        change (values.set left v hn).toList.drop left = _
        rw [Vector.toList_set, List.drop_set, if_neg (Nat.lt_irrefl left), Nat.sub_self,
          List.drop_eq_getElem_cons (by rw [Vector.length_toList]; exact hn), List.set_cons_zero]
      refine ⟨out, ?_, ?_⟩
      · unfold takeInto
        change (do
          let values ← store .values values (left : Int) v
          takeInto left ⟨rest⟩ values) = _
        rw [hstore, ok_bind, hout]
        rfl
      · rw [hlist, hdrop, List.take_succ_cons, List.reverse_cons, List.append_assoc]
        rfl

theorem get_assigns {α : Type} {slot : Fin n → Fin n} (hslot : Function.Injective slot)
    (f : Fin n → α) (is : List (Fin n)) (out : Vector α n) (j : Fin n) :
    (is.foldl (fun out i => assign out (slot i) (f i)) out).get (slot j) =
      if j ∈ is then f j else out.get (slot j) := by
  induction is generalizing out with
  | nil => rfl
  | cons i is ih =>
    rw [List.foldl_cons, ih, get_assign]
    by_cases hj : j ∈ is
    · simp [hj]
    · by_cases hij : i = j
      · simp [hij]
      · have hne : ¬ slot i = slot j := fun h => hij (hslot h)
        simp [hj, hne, Ne.symm hij]

/-- The entry `k` places further, round the end. -/
def further (hpos : 0 < n) (k : Nat) (i : Fin n) : Fin n := ⟨(i.val + k) % n, Nat.mod_lt _ hpos⟩

theorem further_injective (hpos : 0 < n) (k : Nat) : Function.Injective (further hpos k) := by
  intro i j h
  have hmod : i.val % n = j.val % n := Nat.ModEq.add_right_cancel' k (congrArg Fin.val h)
  rw [Nat.mod_eq_of_lt i.isLt, Nat.mod_eq_of_lt j.isLt] at hmod
  exact Fin.ext hmod

/-- The values, each `k` entries further. -/
def spread (hpos : 0 < n) (k : Nat) (values : Vector Int64 n) : Vector Int64 n :=
  (List.finRange n).foldl (fun out i => assign out (further hpos k i) (values.get i))
    (Vector.replicate n 0)

theorem rotate_spread (hpos : 0 < n) (k : Nat) (values : Vector Int64 n) :
    (spread hpos k values).toList.rotate k = values.toList := by
  apply List.ext_getElem
  · simp
  · intro i hi hi'
    have hin : i < n := by simpa using hi'
    have hget := get_assigns (further_injective hpos k) values.get (List.finRange n)
      (Vector.replicate n 0) ⟨i, hin⟩
    rw [if_pos (List.mem_finRange _)] at hget
    simp only [List.getElem_rotate, Vector.getElem_toList, Vector.length_toList]
    exact hget

theorem rolled_eq (hpos : 0 < n) (rolls : Int) (values : Vector Int64 n) :
    rolled n rolls values = .ok (spread hpos (rolls % n).toNat values) := by
  have hn : 0 < (n : Int) := Int.natCast_pos.mpr hpos
  have hdivisor : divisor n = .ok () := divisor_eq (Int.ne_of_gt hn)
  have hr := Int.emod_nonneg rolls (Int.ne_of_gt hn)
  generalize hk : (rolls % n).toNat = k
  have hreduced : reduced n rolls = k := by
    rw [reduced_eq hn]
    omega
  have hstep : ∀ out : Vector Int64 n, ∀ i ∈ List.finRange n,
      (do
        divisor n
        store .rolled out ((i.val + reduced n rolls).tmod n) (values.get i)) =
      .ok (assign out (further hpos k i) (values.get i)) := by
    intro out i _
    have hindex : ((i.val : Int) + reduced n rolls).tmod n = (further hpos k i).val := by
      rw [hreduced, Int.tmod_eq_emod_of_nonneg (by omega)]
      exact (Int.natCast_emod _ _).symm
    rw [hdivisor, ok_bind, hindex, store_vector]
  have hfold := foldlM_ok hstep (Vector.replicate n 0)
  unfold rolled
  rw [hdivisor] at hfold ⊢
  exact hfold

/-- Read from the top down, what went `k` entries further is what a rotation brings. -/
theorem reverse_spread (hpos : 0 < n) {k : Nat} (hk : k < n) {values : Vector Int64 n}
    {top : List Int64} (h : values.toList = top.reverse) :
    (spread hpos k values).toList.reverse = top.rotate k := by
  have hlength : values.toList.length = n := Vector.length_toList
  have htop : top = values.toList.reverse := by rw [h, List.reverse_reverse]
  -- The rotation and what it lacks of a whole round leave everything in place.
  have hround : k + (n - k) = n := by omega
  have hself : (spread hpos k values).toList.rotate n = (spread hpos k values).toList := by
    have hrotate := List.rotate_length (spread hpos k values).toList
    rwa [Vector.length_toList] at hrotate
  rw [htop, List.rotate_reverse, hlength, Nat.mod_eq_of_lt hk, ← rotate_spread hpos k values,
    List.rotate_rotate, hround, hself]

theorem rollTop_eq {depth : Nat} {s : Stack} (hpos : 0 < depth) (hle : depth ≤ s.size)
    (rolls : Int) : rollTop depth rolls s =
      .ok ⟨(s.items.take depth).rotateLeft (rolls % depth).toNat ++ s.items.drop depth⟩ := by
  obtain ⟨values, htake, hvalues⟩ := takeInto_eq s (Vector.replicate depth 0) (Nat.le_refl _) hle
  rw [List.drop_of_length_le (by rw [Vector.length_toList]), List.append_nil] at hvalues
  have hk : (rolls % depth).toNat < depth := by
    have := Int.emod_lt_of_pos rolls (Int.natCast_pos.mpr hpos)
    omega
  have hout := Stack.items_pushes (spread hpos (rolls % depth).toNat values).toList ⟨s.items.drop depth⟩
  rw [reverse_spread hpos hk hvalues] at hout
  unfold rollTop
  rw [htake, ok_bind]
  dsimp only
  rw [rolled_eq hpos, ok_bind, rotateLeft_eq_rotate, ← hout]
  rfl

theorem roll?_eq (s : Stack) (depth rolls : Int64) :
    roll? s depth rolls = .ok (s.roll? depth rolls) := by
  unfold roll? Stack.roll?
  by_cases hdepth : 0 < depth.toInt ∧ depth.toInt ≤ s.size
  · have hcast : (depth.toInt.toNat : Int) = depth.toInt := by omega
    rw [if_neg (by omega), if_pos hdepth, rollTop_eq (by omega) (by omega), hcast]
    rfl
  · rw [if_pos (by omega), if_neg hdepth]
    rfl

end Rolling

section Executing

def rotate (m : Machine) : Except Fault Machine :=
  match m.stack.pop2? with
  | some (depth, rolls, rest) => do
    let turned ← roll? rest depth rolls
    return { m with stack := turned.getD rest }
  | none => return m

theorem rotate_eq (m : Machine) : rotate m = .ok (Executor.rotate m) := by
  unfold rotate Executor.rotate
  cases m.stack.pop2? with
  | none => rfl
  | some v =>
    dsimp only
    rw [roll?_eq, ok_bind]
    rfl

/-- Executes an operation. Only arithmetic and rolls divide or use slices. -/
def run (e : Executor) (op : OpCode) (operand : Nat) (m : Machine) :
    Except Fault (Machine × Option WriteFault) :=
  match e with
  | .arithmetic => do
    let m ← binary op m
    return (m, none)
  | .roll => do
    let m ← rotate m
    return (m, none)
  | e => return e.run op operand m

theorem run_eq (e : Executor) (op : OpCode) (operand : Nat) (m : Machine) :
    run e op operand m = .ok (e.run op operand m) := by
  cases e with
  | arithmetic =>
    unfold run
    rw [binary_eq, ok_bind]
    rfl
  | roll =>
    unfold run
    rw [rotate_eq, ok_bind]
    rfl
  | _ => rfl

def perform (set : InstructionSet) (i : Instruction) (m : Machine) :
    Except Fault (Machine × Option WriteFault) :=
  if i.isIdle then return (m, none) else run (set.executor i.op) i.op i.operand m

theorem perform_eq (set : InstructionSet) (i : Instruction) (m : Machine) :
    perform set i m = .ok (set.execute i m) := by
  unfold perform InstructionSet.execute
  split
  · rfl
  · exact run_eq _ _ _ m

end Executing

end Guarded

end Codel
