import Codel.Tape.Machine
import Mathlib.Data.List.Basic

namespace Codel.Tape

variable {code : Array UInt8} {i j k n : Nat}

def commandAt (code : Array UInt8) (i : Nat) : Option Command := code[i]?.bind Command.ofByte?

/-- From `i` up to `j` every bracket has its partner. -/
inductive Balanced (code : Array UInt8) : Nat → Nat → Prop
  | nil (i : Nat) : Balanced code i i
  | other {i j : Nat} : Balanced code i j → commandAt code j ≠ some .loopStart →
      commandAt code j ≠ some .loopEnd → Balanced code i (j + 1)
  | loop {i k j : Nat} : Balanced code i k → commandAt code k = some .loopStart →
      Balanced code (k + 1) j → commandAt code j = some .loopEnd → Balanced code i (j + 1)

/-- The loop that starts at `i` ends at `j`. -/
structure Partners (code : Array UInt8) (i j : Nat) : Prop where
  start : commandAt code i = some .loopStart
  stop : commandAt code j = some .loopEnd
  inner : Balanced code (i + 1) j

/-- The starts of the loops that are open before a position, the innermost first. -/
def openAt (code : Array UInt8) : Nat → List Nat
  | 0 => []
  | i + 1 =>
    match commandAt code i with
    | some .loopStart => i :: openAt code i
    | some .loopEnd => (openAt code i).tail
    | _ => openAt code i

theorem lt_size_of_commandAt {c : Command} (h : commandAt code i = some c) : i < code.size := by
  obtain ⟨b, hb, _⟩ := Option.bind_eq_some_iff.mp h
  obtain ⟨hi, _⟩ := Array.getElem?_eq_some_iff.mp hb
  exact hi

theorem commandAt_eq (h : i < code.size) : commandAt code i = Command.ofByte? code[i] := by
  simp [commandAt, h]

theorem openAt_start (h : commandAt code i = some .loopStart) :
    openAt code (i + 1) = i :: openAt code i := by
  simp [openAt, h]

theorem openAt_end (h : commandAt code i = some .loopEnd) :
    openAt code (i + 1) = (openAt code i).tail := by
  simp [openAt, h]

theorem openAt_other (hs : commandAt code i ≠ some .loopStart)
    (he : commandAt code i ≠ some .loopEnd) : openAt code (i + 1) = openAt code i := by
  rw [openAt]
  split
  next h => exact absurd h hs
  next h => exact absurd h he
  next => rfl

/-- What follows the innermost open loop is balanced, and the loops around it are those that were
open where it starts. -/
theorem openAt_cons {rest : List Nat} (h : openAt code n = k :: rest) :
    k < n ∧ commandAt code k = some .loopStart ∧ openAt code k = rest ∧
      Balanced code (k + 1) n := by
  induction n using Nat.strongRecOn generalizing k rest with
  | _ n ih =>
    cases n with
    | zero => simp [openAt] at h
    | succ n =>
      by_cases hs : commandAt code n = some .loopStart
      · rw [openAt_start hs] at h
        obtain ⟨rfl, rfl⟩ := List.cons.inj h
        exact ⟨Nat.lt_succ_self _, hs, rfl, .nil _⟩
      · by_cases he : commandAt code n = some .loopEnd
        · rw [openAt_end he] at h
          cases hopen : openAt code n with
          | nil => simp [hopen] at h
          | cons inner outer =>
            -- The loop that ends here is closed; the next one is open where that loop starts.
            rw [hopen, List.tail_cons] at h
            subst h
            obtain ⟨hlt, hstart, hinner, hbal⟩ := ih n (Nat.lt_succ_self n) hopen
            obtain ⟨hk, hkstart, hrest, hbefore⟩ := ih inner (by omega) hinner
            exact ⟨by omega, hkstart, hrest, .loop hbefore hstart hbal he⟩
        · rw [openAt_other hs he] at h
          obtain ⟨hk, hstart, hrest, hbal⟩ := ih n (Nat.lt_succ_self n) h
          exact ⟨by omega, hstart, hrest, .other hbal hs he⟩

theorem Balanced.openAt_eq (h : Balanced code i j) : openAt code j = openAt code i := by
  induction h with
  | nil => rfl
  | other _ hs he ih => rw [openAt_other hs he, ih]
  | loop _ hs _ he ihbefore ihinner =>
    rw [openAt_end he, ihinner, openAt_start hs, List.tail_cons, ihbefore]

theorem Partners.openAt_eq (h : Partners code i j) : openAt code j = i :: openAt code i := by
  rw [h.inner.openAt_eq, openAt_start h.start]

theorem partners_of_openAt {rest : List Nat} (h : openAt code j = i :: rest)
    (he : commandAt code j = some .loopEnd) : Partners code i j := by
  obtain ⟨_, hs, _, hbal⟩ := openAt_cons h
  exact ⟨hs, he, hbal⟩

theorem openAt_sorted (code : Array UInt8) (n : Nat) :
    (openAt code n).Pairwise (· > ·) ∧ ∀ k ∈ openAt code n, k < n := by
  induction n with
  | zero => exact ⟨List.Pairwise.nil, by simp [openAt]⟩
  | succ n ih =>
    by_cases hs : commandAt code n = some .loopStart
    · rw [openAt_start hs]
      refine ⟨List.pairwise_cons.mpr ⟨ih.2, ih.1⟩, ?_⟩
      intro k hk
      rcases List.mem_cons.mp hk with rfl | hk
      · exact Nat.lt_succ_self _
      · exact Nat.lt_succ_of_lt (ih.2 k hk)
    · by_cases he : commandAt code n = some .loopEnd
      · rw [openAt_end he]
        exact ⟨ih.1.tail, fun k hk => Nat.lt_succ_of_lt (ih.2 k (List.mem_of_mem_tail hk))⟩
      · rw [openAt_other hs he]
        exact ⟨ih.1, fun k hk => Nat.lt_succ_of_lt (ih.2 k hk)⟩

theorem Partners.lt (h : Partners code i j) : i < j :=
  (openAt_sorted code j).2 i (by rw [h.openAt_eq]; exact List.mem_cons_self)

/-- A byte opens the loop that it starts and closes the loop whose partner it is. -/
theorem mem_openAt_succ_iff : k ∈ openAt code (n + 1) ↔
    (k = n ∧ commandAt code n = some .loopStart) ∨ (k ∈ openAt code n ∧ ¬ Partners code k n) := by
  by_cases he : commandAt code n = some .loopEnd
  · rw [openAt_end he]
    cases hopen : openAt code n with
    | nil => simp [he]
    | cons inner outer =>
      have hpartner : Partners code k n ↔ k = inner := by
        constructor
        · intro h
          rw [h.openAt_eq] at hopen
          exact (List.cons.inj hopen).1
        · rintro rfl
          exact partners_of_openAt hopen he
      have hsorted := (openAt_sorted code n).1
      rw [hopen] at hsorted
      have houter : k ∈ outer → k ≠ inner := fun hk =>
        Nat.ne_of_lt ((List.pairwise_cons.mp hsorted).1 k hk)
      rw [List.tail_cons, List.mem_cons, hpartner]
      constructor
      · exact fun hk => Or.inr ⟨Or.inr hk, houter hk⟩
      · rintro (⟨_, hs⟩ | ⟨hk, hne⟩)
        · simp [he] at hs
        · exact hk.resolve_left hne
  · have hn : ¬ Partners code k n := fun h => he h.stop
    by_cases hs : commandAt code n = some .loopStart
    · simp [openAt_start hs, hs, hn]
    · simp [openAt_other hs he, hs, hn]

/-- A loop is open before a position just if it starts before and does not end before it. -/
theorem mem_openAt_iff : k ∈ openAt code n ↔
    k < n ∧ commandAt code k = some .loopStart ∧ ∀ j, Partners code k j → n ≤ j := by
  induction n with
  | zero => simp [openAt]
  | succ n ih =>
    rw [mem_openAt_succ_iff, ih]
    constructor
    · rintro (⟨rfl, hs⟩ | ⟨⟨hlt, hstart, hj⟩, hn⟩)
      · exact ⟨Nat.lt_succ_self _, hs, fun _ hp => hp.lt⟩
      · refine ⟨Nat.lt_succ_of_lt hlt, hstart, fun j hp => Nat.lt_of_le_of_ne (hj j hp) ?_⟩
        rintro rfl
        exact hn hp
    · rintro ⟨hlt, hstart, hj⟩
      rcases Nat.lt_succ_iff_lt_or_eq.mp hlt with hlt | rfl
      · refine Or.inr ⟨⟨hlt, hstart, fun j hp => Nat.le_of_succ_le (hj j hp)⟩, fun hp => ?_⟩
        exact absurd (hj n hp) (Nat.not_succ_le_self n)
      · exact Or.inl ⟨rfl, hstart⟩

section PastLoop

variable {depth : Nat}

theorem pastLoop_zero (code : Array UInt8) (i : Nat) : pastLoop code i 0 = i := by
  unfold pastLoop
  split <;> rfl

theorem pastLoop_succ (hi : i < code.size) (depth : Nat) :
    pastLoop code i (depth + 1) =
      match commandAt code i with
      | some .loopStart => pastLoop code (i + 1) (depth + 2)
      | some .loopEnd => pastLoop code (i + 1) depth
      | _ => pastLoop code (i + 1) (depth + 1) := by
  rw [commandAt_eq hi]
  conv => lhs; unfold pastLoop
  exact dif_pos hi

theorem pastLoop_start (h : commandAt code i = some .loopStart) :
    pastLoop code i (depth + 1) = pastLoop code (i + 1) (depth + 2) := by
  rw [pastLoop_succ (lt_size_of_commandAt h), h]

theorem pastLoop_end (h : commandAt code i = some .loopEnd) :
    pastLoop code i (depth + 1) = pastLoop code (i + 1) depth := by
  rw [pastLoop_succ (lt_size_of_commandAt h), h]

theorem pastLoop_other (hi : i < code.size) (hs : commandAt code i ≠ some .loopStart)
    (he : commandAt code i ≠ some .loopEnd) :
    pastLoop code i (depth + 1) = pastLoop code (i + 1) (depth + 1) := by
  rw [pastLoop_succ hi]
  split
  next h => exact absurd h hs
  next h => exact absurd h he
  next => rfl

theorem pastLoop_of_size_le (h : code.size ≤ i) : pastLoop code i depth = i := by
  unfold pastLoop
  rw [dif_neg (by omega)]

/-- Passing over a loop passes over whatever is balanced. -/
theorem Balanced.pastLoop_eq (h : Balanced code i j) (hj : j ≤ code.size) (depth : Nat) :
    pastLoop code i (depth + 1) = pastLoop code j (depth + 1) := by
  induction h generalizing depth with
  | nil => rfl
  | other _ hs he ih => rw [ih (by omega), pastLoop_other (by omega) hs he]
  | loop _ hs _ he ihbefore ihinner =>
    have hlt := lt_size_of_commandAt hs
    rw [ihbefore (by omega), pastLoop_start hs, ihinner (by omega), pastLoop_end he]

theorem Partners.pastLoop_eq (h : Partners code i j) : pastLoop code (i + 1) 1 = j + 1 := by
  have hj := lt_size_of_commandAt h.stop
  rw [h.inner.pastLoop_eq (by omega), pastLoop_end h.stop, pastLoop_zero]

theorem Partners.unique_stop (h : Partners code i j) (h' : Partners code i k) : j = k :=
  Nat.succ.inj (h.pastLoop_eq.symm.trans h'.pastLoop_eq)

theorem Partners.unique_start (h : Partners code i n) (h' : Partners code j n) : i = j :=
  (List.cons.inj (h.openAt_eq.symm.trans h'.openAt_eq)).1

/-- The outermost of the loops that are passed over ends where passing over does, unless that is the
end of the program. -/
theorem pastLoop_stops {inner outer : List Nat} (hi : i ≤ code.size)
    (hopen : openAt code i = inner ++ k :: outer) (hdepth : depth = inner.length + 1) :
    pastLoop code i depth = code.size ∨
      ∃ j, Partners code k j ∧ pastLoop code i depth = j + 1 := by
  induction hn : code.size - i generalizing i depth inner with
  | zero => exact Or.inl (by rw [pastLoop_of_size_le (by omega)]; omega)
  | succ n ih =>
    subst hdepth
    have hlt : i < code.size := by omega
    by_cases hs : commandAt code i = some .loopStart
    · have hinner : openAt code (i + 1) = (i :: inner) ++ k :: outer := by
        rw [openAt_start hs, hopen, List.cons_append]
      rw [pastLoop_start hs]
      exact ih (by omega) hinner rfl (by omega)
    · by_cases he : commandAt code i = some .loopEnd
      · rw [pastLoop_end he]
        cases inner with
        | nil => exact Or.inr ⟨i, partners_of_openAt hopen he, pastLoop_zero _ _⟩
        | cons first inner =>
          exact ih (by omega) (by rw [openAt_end he, hopen]; rfl) rfl (by omega)
      · rw [pastLoop_other hlt hs he]
        exact ih (by omega) (by rw [openAt_other hs he, hopen]) rfl (by omega)

theorem pastLoop_of_no_partner (hs : commandAt code i = some .loopStart)
    (h : ∀ j, ¬ Partners code i j) : pastLoop code (i + 1) 1 = code.size := by
  have hi := lt_size_of_commandAt hs
  have hopen : openAt code (i + 1) = [] ++ i :: openAt code i := openAt_start hs
  rcases pastLoop_stops (by omega) hopen rfl with heq | ⟨j, hj, _⟩
  · exact heq
  · exact absurd hj (h j)

end PastLoop

end Codel.Tape
