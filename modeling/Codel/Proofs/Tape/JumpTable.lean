import Codel.Proofs.Tape.Brackets

namespace Codel.Tape

variable {code : Array UInt8} {a b n : Nat}

theorem commandAt_eq_some_iff {c : Command} :
    commandAt code a = some c ↔ code[a]? = some c.byte := by
  have hbyte : ∀ u : UInt8, Command.ofByte? u = some c ↔ u = c.byte := by
    intro u
    constructor
    · intro h
      unfold Command.ofByte? at h
      split_ifs at h <;> cases h <;> assumption
    · rintro rfl
      exact Command.ofByte?_byte c
  simp [commandAt, Option.bind_eq_some_iff, hbyte]

/-- A pass over the brackets: the starts that wait for their end, the innermost first, and the
partners found. -/
structure Pairing where
  waiting : List Nat
  partner : Array (Option Nat)

namespace Pairing

def scan (code : Array UInt8) (t : Pairing) (i : Nat) : Pairing :=
  match commandAt code i, t.waiting with
  | some .loopStart, waiting => { t with waiting := i :: waiting }
  | some .loopEnd, k :: waiting =>
    ⟨waiting, (t.partner.setIfInBounds k (some i)).setIfInBounds i (some k)⟩
  | _, _ => t

/-- The partners are those of the brackets that end before `n`. -/
structure Upto (code : Array UInt8) (n : Nat) (t : Pairing) : Prop where
  waiting : t.waiting = openAt code n
  size : t.partner.size = code.size
  partner : ∀ a b, t.partner[a]?.join = some b ↔
    (Partners code a b ∧ b < n) ∨ (Partners code b a ∧ a < n)

variable {t : Pairing}

theorem Upto.pass (h : t.Upto code n) (hn : ∀ a, ¬ Partners code a n) {waiting : List Nat}
    (hw : waiting = openAt code (n + 1)) : Upto code (n + 1) { t with waiting := waiting } := by
  refine ⟨hw, h.size, fun a b => ?_⟩
  have hlast : ∀ {a b}, Partners code a b → (b < n + 1 ↔ b < n) := by
    intro a b hp
    have : b ≠ n := by
      rintro rfl
      exact hn a hp
    omega
  rw [h.partner, and_congr_right hlast, and_congr_right hlast]

/-- Where a loop ends, it and its start are written into each other's place. -/
theorem Upto.pair (h : t.Upto code n) {k : Nat} (hk : Partners code k n) {waiting : List Nat}
    (hw : waiting = openAt code (n + 1)) :
    Upto code (n + 1)
      ⟨waiting, (t.partner.setIfInBounds k (some n)).setIfInBounds n (some k)⟩ := by
  have hlt := hk.lt
  have hsize := lt_size_of_commandAt hk.stop
  refine ⟨hw, by simp [h.size], fun a b => ?_⟩
  have hstart : ¬ Partners code b k := fun hp => by
    simpa [hk.start] using hp.stop
  have hstop : ¬ Partners code n b := fun hp => by
    simpa [hk.stop] using hp.start
  by_cases hn : a = n
  · subst hn
    have hb : Partners code b a ↔ k = b := ⟨hk.unique_start, fun e => e ▸ hk⟩
    simp [h.size, hsize, hstop, hb]
  · by_cases ha : a = k
    · subst ha
      have hb : Partners code a b ∧ b < n + 1 ↔ n = b :=
        ⟨fun hp => hk.unique_stop hp.1, fun e => e ▸ ⟨hk, Nat.lt_succ_self n⟩⟩
      have ha : a < code.size := by omega
      have hget : ((t.partner.setIfInBounds a (some n)).setIfInBounds n (some a))[a]?.join =
          some n := by
        simp [h.size, ha, Ne.symm hn]
      rw [hget, hb]
      simp [hstart]
    · have hb : Partners code a b → (b < n + 1 ↔ b < n) := by
        intro hp
        have : b ≠ n := by
          rintro rfl
          exact ha (hp.unique_start hk)
        omega
      have ha' : a < n + 1 ↔ a < n := by omega
      simp only [Array.getElem?_setIfInBounds, Ne.symm hn, Ne.symm ha, if_false]
      rw [h.partner, and_congr_right hb, ha']

theorem Upto.scan (h : t.Upto code n) : (t.scan code n).Upto code (n + 1) := by
  unfold Pairing.scan
  split
  next hs =>
    exact h.pass (fun a hp => by simpa [hs] using hp.stop) (by rw [openAt_start hs, h.waiting])
  next k waiting he hw =>
    rw [h.waiting] at hw
    exact h.pair (partners_of_openAt hw he) (by rw [openAt_end he, hw, List.tail_cons])
  next hs he =>
    have hnone : ∀ a, ¬ Partners code a n := by
      intro a hp
      exact he a (openAt code a) hp.stop (by rw [h.waiting, hp.openAt_eq])
    refine h.pass hnone ?_
    rw [h.waiting]
    by_cases hstop : commandAt code n = some .loopEnd
    · -- An end without a start finds nothing waiting.
      rw [openAt_end hstop]
      cases hopen : openAt code n with
      | nil => rfl
      | cons k rest => exact absurd (partners_of_openAt hopen hstop) (hnone k)
    · exact (openAt_other (fun hstart => hs hstart) hstop).symm

theorem upto_foldl (code : Array UInt8) (n : Nat) :
    Upto code n
      ((List.range n).foldl (Pairing.scan code) ⟨[], Array.replicate code.size none⟩) := by
  induction n with
  | zero =>
    refine ⟨rfl, by simp, fun a b => ?_⟩
    have hempty : (Array.replicate code.size (none : Option Nat))[a]?.join = none := by
      rw [Array.getElem?_replicate]
      split <;> rfl
    simp [hempty]
  | succ n ih =>
    rw [List.range_succ, List.foldl_append]
    exact ih.scan

end Pairing

/-- For every position of a program, the position of the bracket that pairs with the one there. -/
def jumpTable (code : Array UInt8) : Array (Option Nat) :=
  ((List.range code.size).foldl (Pairing.scan code) ⟨[], Array.replicate code.size none⟩).partner

theorem jumpTable_eq_some_iff :
    (jumpTable code)[a]?.join = some b ↔ Partners code a b ∨ Partners code b a := by
  have hup := (Pairing.upto_foldl code code.size).partner a b
  have hstop : ∀ {i j}, Partners code i j → j < code.size := fun h => lt_size_of_commandAt h.stop
  rw [jumpTable, hup, and_iff_left_of_imp hstop, and_iff_left_of_imp hstop]

example : jumpTable #[0x5d, 0x5b, 0x5b, 0x5d] = #[none, none, some 3, some 2] := by decide

/-- A tape machine that finds the ends of its loops in a table. -/
structure JumpMachine where
  cells : Nat → Nat := fun _ => 0
  pointer : Nat := 0
  position : Nat := 0
  reads : Nat := 0
  output : Bytes := []

namespace JumpMachine

def cell (m : JumpMachine) : Nat := m.cells m.pointer

def store (m : JumpMachine) (v : Nat) : JumpMachine :=
  { m with cells := fun i => if i = m.pointer then v else m.cells i }

def goto (m : JumpMachine) (position : Nat) : JumpMachine := { m with position := position }

def next (m : JumpMachine) : JumpMachine := m.goto (m.position + 1)

def exec (code : Array UInt8) (input : Bytes) (m : JumpMachine) : Command → JumpMachine
  | .right => { m with pointer := (m.pointer + 1) % cellCount }.next
  | .left => { m with pointer := (m.pointer + (cellCount - 1)) % cellCount }.next
  | .increment => (m.store ((m.cell + 1) % 256)).next
  | .decrement => (m.store ((m.cell + 255) % 256)).next
  | .write => { m with output := m.output ++ String.utf8EncodeChar (Char.ofNat m.cell) }.next
  | .read => ({ m with reads := m.reads + 1 }.store (input.getD m.reads 0).toNat).next
  | .loopStart =>
    if m.cell = 0 then
      match (jumpTable code)[m.position]?.join with
      | some j => m.goto (j + 1)
      | none => m.goto code.size
    else m.next
  | .loopEnd =>
    match (jumpTable code)[m.position]?.join with
    | some i => if m.cell = 0 then m.next else m.goto (i + 1)
    | none => m.next

def step (code : Array UInt8) (input : Bytes) (m : JumpMachine) : JumpMachine :=
  match commandAt code m.position with
  | some c => m.exec code input c
  | none => m.next

def run (code : Array UInt8) (input : Bytes) : (budget : Nat) → JumpMachine → JumpMachine
  | 0, m => m
  | budget + 1, m =>
    if m.position < code.size then run code input budget (m.step code input) else m

/-- What a program writes by the table, and where it was stopped if it had not ended by then. -/
def execute (code input : Bytes) (stop : Cancellation) : Bytes × Option Interrupted :=
  let m := run code.toArray input stop.after {}
  (m.output, if m.position < code.length then some ⟨m.position, stop.cause⟩ else none)

end JumpMachine

end Codel.Tape
