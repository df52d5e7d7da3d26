import Codel.Proofs.Machine.Sink

namespace Codel.Sink

variable {k : Sink} {n : Nat} {bs : Bytes} {bss : List Bytes}

/-- The sink after writes were tried in order. -/
def writes (k : Sink) (bss : List Bytes) : Sink := bss.foldl write k

/-- Each of the writes is taken when its turn comes. -/
def TakesAll (k : Sink) : List Bytes → Prop
  | [] => True
  | bs :: rest => k.takes bs = true ∧ (k.write bs).TakesAll rest

theorem writes_concat (k : Sink) (bss : List Bytes) (bs : Bytes) :
    k.writes (bss ++ [bs]) = (k.writes bss).write bs := by
  rw [writes, List.foldl_append]
  rfl

/-- Writes change what was counted and taken, and not the kind of the sink. -/
theorem exists_writes_eq (k : Sink) (bss : List Bytes) :
    ∃ tally taken, k.writes bss = { k with tally := tally, taken := taken } := by
  induction bss generalizing k with
  | nil => exact ⟨_, _, rfl⟩
  | cons bs bss ih => exact ih (k.write bs)

theorem writes_admits (k : Sink) (bss : List Bytes) : (k.writes bss).admits = k.admits := by
  obtain ⟨tally, taken, h⟩ := k.exists_writes_eq bss
  rw [h]

theorem writes_cause (k : Sink) (bss : List Bytes) : (k.writes bss).cause = k.cause := by
  obtain ⟨tally, taken, h⟩ := k.exists_writes_eq bss
  rw [h]

theorem takesAll_concat :
    k.TakesAll (bss ++ [bs]) ↔ k.TakesAll bss ∧ (k.writes bss).takes bs = true := by
  induction bss generalizing k with
  | nil =>
    change k.takes bs = true ∧ True ↔ True ∧ k.takes bs = true
    exact and_comm
  | cons b bss ih =>
    change k.takes b = true ∧ (k.write b).TakesAll (bss ++ [bs]) ↔
      (k.takes b = true ∧ (k.write b).TakesAll bss) ∧ ((k.write b).writes bss).takes bs = true
    rw [ih, and_assoc]

theorem Accepting.takesAll (h : k.Accepting) (bss : List Bytes) : k.TakesAll bss := by
  induction bss generalizing k with
  | nil => trivial
  | cons bs bss ih => exact ⟨h.takes bs, ih (h.write bs)⟩

theorem accepting_default : ({} : Sink).Accepting := fun _ _ => rfl

theorem write_of_takes (h : k.takes bs = true) :
    k.write bs = { k with
      tally := ⟨k.tally.tried + 1, k.tally.refused, k.tally.bytes + bs.length⟩
      taken := bs :: k.taken } := by
  unfold write Tally.count
  simp only [h, if_true]

theorem write_of_refused (h : k.takes bs = false) :
    k.write bs = { k with
      tally := ⟨k.tally.tried + 1, k.tally.refused + 1, k.tally.bytes⟩ } := by
  unfold write Tally.count
  simp only [h, Bool.false_eq_true, if_false]

theorem bytes_write_of_takes (h : k.takes bs = true) : (k.write bs).bytes = k.bytes ++ bs := by
  unfold Sink.bytes
  rw [write_of_takes h, List.reverse_cons, List.flatten_concat]

theorem TakesAll.taken (h : k.TakesAll bss) : (k.writes bss).taken = bss.reverse ++ k.taken := by
  induction bss generalizing k with
  | nil => rfl
  | cons bs bss ih =>
    change ((k.write bs).writes bss).taken = _
    rw [ih h.2, write_of_takes h.1, List.reverse_cons, List.append_assoc]
    rfl

theorem TakesAll.bytes (h : k.TakesAll bss) : (k.writes bss).bytes = k.bytes ++ bss.flatten := by
  unfold Sink.bytes
  rw [h.taken, List.reverse_append, List.reverse_reverse, List.flatten_append]

/-- Writes that were taken are counted by their bytes and never as refused. -/
theorem TakesAll.tally (h : k.TakesAll bss) :
    (k.writes bss).tally.refused = k.tally.refused ∧
      (k.writes bss).tally.bytes = k.tally.bytes + bss.flatten.length := by
  induction bss generalizing k with
  | nil => exact ⟨rfl, rfl⟩
  | cons bs bss ih =>
    obtain ⟨hrefused, hbytes⟩ := ih h.2
    have hwrite := write_of_takes h.1
    refine ⟨hrefused.trans (by rw [hwrite]), hbytes.trans ?_⟩
    rw [hwrite, List.flatten_cons, List.length_append, Nat.add_assoc]

/-- A sink that closes goes by the total alone, for it takes nothing after its first refusal. -/
theorem closing_takesAll_iff : (closing n).TakesAll bss ↔ bss.flatten.length ≤ n := by
  induction bss using List.reverseRecOn with
  | nil => exact iff_of_true trivial (Nat.zero_le n)
  | append_singleton bss bs ih =>
    -- While nothing was refused, the tally holds the bytes of all that was written.
    have htakes : (closing n).TakesAll bss →
        (((closing n).writes bss).takes bs = true ↔ bss.flatten.length + bs.length ≤ n) := by
      intro h
      obtain ⟨hrefused, hbytes⟩ := h.tally
      unfold takes
      rw [writes_admits]
      change (decide (_ = 0) && decide (_ ≤ n)) = true ↔ _
      rw [hrefused, hbytes]
      simp [closing]
    rw [takesAll_concat, List.flatten_append, List.flatten_singleton, List.length_append]
    constructor
    · rintro ⟨hall, hlast⟩
      exact (htakes hall).mp hlast
    · intro hle
      have hall := ih.mpr (Nat.le_of_add_right_le hle)
      exact ⟨hall, (htakes hall).mpr hle⟩

section Fitting

variable {k' : Sink} {m : Nat} {bss' : List Bytes}

/-- How many of the writes are taken before the first one that is refused. -/
def fitting (k : Sink) : List Bytes → Nat
  | [] => 0
  | bs :: rest => if k.takes bs then (k.write bs).fitting rest + 1 else 0

theorem takesAll_take_iff (h : m ≤ bss.length) :
    k.TakesAll (bss.take m) ↔ m ≤ k.fitting bss := by
  induction bss generalizing k m with
  | nil =>
    obtain rfl := Nat.le_zero.mp h
    exact iff_of_true trivial le_rfl
  | cons bs rest ih =>
    cases m with
    | zero => exact iff_of_true trivial (Nat.zero_le _)
    | succ m =>
      have hrest := ih (k := k.write bs) (Nat.le_of_succ_le_succ h)
      change k.takes bs = true ∧ (k.write bs).TakesAll (rest.take m) ↔ _
      rw [hrest, fitting]
      split
      next htakes => simp [htakes]
      next htakes => simp [htakes]

theorem fitting_le (k : Sink) (bss : List Bytes) : k.fitting bss ≤ bss.length := by
  induction bss generalizing k with
  | nil => exact le_rfl
  | cons bs rest ih =>
    have hrest := ih (k.write bs)
    rw [fitting, List.length_cons]
    split <;> omega

theorem fitting_cons_eq_zero_iff : k.fitting (bs :: bss) = 0 ↔ k.takes bs = false := by
  rw [fitting]
  split
  next htakes => simp [htakes]
  next htakes => simp [htakes]

theorem takesAll_iff_fitting : k.TakesAll bss ↔ k.fitting bss = bss.length := by
  have hall := takesAll_take_iff (k := k) (le_refl bss.length)
  rw [List.take_length] at hall
  exact hall.trans (k.fitting_le bss).ge_iff_eq

/-- A sink that goes by the number of the write and not by what is written. -/
def Heedless (k : Sink) : Prop :=
  ∀ (t t' : Tally) (bs bs' : Bytes), t.tried = t'.tried → k.admits t bs = k.admits t' bs'

theorem Accepting.heedless (h : k.Accepting) : k.Heedless :=
  fun t t' bs bs' _ => (h t bs).trans (h t' bs').symm

/-- Sinks of one kind after the same number of writes. -/
structure Abreast (k k' : Sink) : Prop where
  heedless : k.Heedless
  admits : k'.admits = k.admits
  tried : k'.tally.tried = k.tally.tried

theorem Heedless.abreast (h : k.Heedless) : k.Abreast k := ⟨h, rfl, rfl⟩

theorem Abreast.takes (h : k.Abreast k') (bs bs' : Bytes) : k'.takes bs' = k.takes bs := by
  unfold Sink.takes
  rw [h.admits]
  exact h.heedless _ _ _ _ h.tried

theorem Abreast.write (h : k.Abreast k') (bs bs' : Bytes) : (k.write bs).Abreast (k'.write bs') :=
  ⟨h.heedless, h.admits, congrArg (· + 1) h.tried⟩

/-- Of equally many writes such sinks take equally many. -/
theorem Abreast.fitting (h : k.Abreast k') (hlength : bss'.length = bss.length) :
    k'.fitting bss' = k.fitting bss := by
  induction bss generalizing k k' bss' with
  | nil => rw [List.length_eq_zero_iff.mp hlength, Sink.fitting, Sink.fitting]
  | cons bs rest ih =>
    obtain ⟨bs', rest', rfl⟩ := List.exists_cons_of_length_eq_add_one hlength
    have hrest := ih (h.write bs bs') (Nat.succ_injective hlength)
    rw [Sink.fitting, Sink.fitting, h.takes bs bs', hrest]

end Fitting

end Codel.Sink
