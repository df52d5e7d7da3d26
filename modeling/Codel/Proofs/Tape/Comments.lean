import Codel.Proofs.Tape.Loops
import Codel.Proofs.Tape.Spelling

namespace Codel.Tape

variable {code : Array UInt8} {c : Command} {i : Nat} {s t u : State}

/-- A program without its comments. -/
def bare (code : Array UInt8) : Array UInt8 := ((commands code.toList).map Command.byte).toArray

/-- The number of commands before a position. -/
def rank (code : Array UInt8) (i : Nat) : Nat := (commands (code.toList.take i)).length

theorem commands_append (xs ys : Bytes) : commands (xs ++ ys) = commands xs ++ commands ys :=
  List.filterMap_append

theorem size_bare (code : Array UInt8) : (bare code).size = (commands code.toList).length := by
  simp [bare]

section Rank

theorem rank_of_size_le (h : code.size ≤ i) : rank code i = (bare code).size := by
  rw [size_bare, rank, List.take_of_length_le (by simpa using h)]

theorem rank_succ (code : Array UInt8) (i : Nat) :
    rank code (i + 1) = rank code i + (commandAt code i).toList.length := by
  unfold rank
  rw [List.take_add_one, commands_append, List.length_append, Array.getElem?_toList]
  unfold commandAt
  cases code[i]? with
  | none => rfl
  | some b =>
    change _ + ([b].filterMap Command.ofByte?).length = _
    rw [List.filterMap_cons]
    cases hb : Command.ofByte? b <;> simp [hb]

theorem rank_succ_of_command (h : commandAt code i = some c) :
    rank code (i + 1) = rank code i + 1 := by
  rw [rank_succ, h]
  rfl

theorem rank_succ_of_comment (h : commandAt code i = none) : rank code (i + 1) = rank code i := by
  rw [rank_succ, h]
  rfl

/-- A command keeps its place among the commands. -/
theorem commandAt_bare (h : commandAt code i = some c) :
    commandAt (bare code) (rank code i) = some c := by
  have hi := lt_size_of_commandAt h
  have hsplit : commands code.toList =
      commands (code.toList.take i) ++ c :: commands (code.toList.drop (i + 1)) := by
    rw [commandAt_eq hi] at h
    conv_lhs => rw [← List.take_append_drop i code.toList]
    rw [commands_append, List.drop_eq_getElem_cons (by simpa using hi)]
    congr 1
    rw [commands, List.filterMap_cons_some (by simpa using h)]
    rfl
  rw [commandAt_eq_some_iff]
  simp [bare, hsplit, rank]

theorem rank_lt (h : commandAt code i = some c) : rank code i < (bare code).size :=
  lt_size_of_commandAt (commandAt_bare h)

/-- Passing over a loop passes over the same commands with and without comments. -/
theorem rank_pastLoop (code : Array UInt8) (i depth : Nat) :
    rank code (pastLoop code i depth) = pastLoop (bare code) (rank code i) depth := by
  induction hn : code.size - i generalizing i depth with
  | zero =>
    have hle : code.size ≤ i := by omega
    rw [pastLoop_of_size_le hle, pastLoop_of_size_le (Nat.le_of_eq (rank_of_size_le hle).symm)]
  | succ n ih =>
    have hlt : i < code.size := by omega
    cases depth with
    | zero => rw [pastLoop_zero, pastLoop_zero]
    | succ depth =>
      have hnext : ∀ depth, rank code (pastLoop code (i + 1) depth) =
          pastLoop (bare code) (rank code (i + 1)) depth := fun depth => ih _ _ (by omega)
      cases hc : commandAt code i with
      | none =>
        rw [pastLoop_other hlt (by simp [hc]) (by simp [hc]), hnext, rank_succ_of_comment hc]
      | some c =>
        have hbare := commandAt_bare hc
        by_cases hs : c = .loopStart
        · subst hs
          rw [pastLoop_start hc, pastLoop_start hbare, hnext, rank_succ_of_command hc]
        · by_cases he : c = .loopEnd
          · subst he
            rw [pastLoop_end hc, pastLoop_end hbare, hnext, rank_succ_of_command hc]
          · rw [pastLoop_other hlt (by simp [hc, hs]) (by simp [hc, he]),
              pastLoop_other (rank_lt hc) (by simp [hbare, hs]) (by simp [hbare, he]), hnext,
              rank_succ_of_command hc]

end Rank

namespace State

/-- The state in terms of the program without comments. -/
def strip (code : Array UInt8) (s : State) : State :=
  { s with position := rank code s.position, loops := s.loops.map (rank code) }

theorem strip_exec (hn : s.Nested code) (hc : commandAt code s.position = some c) :
    (exec code c s).strip code = exec (bare code) c (s.strip code) := by
  have hnext : rank code (s.position + 1) = rank code s.position + 1 := rank_succ_of_command hc
  cases c with
  | right | left | write => simp only [exec, strip, hnext, cell]
  | increment | decrement => simp only [exec, setCell, strip, hnext, cell]
  | read =>
    have hinput : (s.strip code).input = s.input := rfl
    simp only [exec, hinput]
    cases s.input <;> simp only [setCell, strip, hnext]
  | loopStart =>
    have hcell : (s.strip code).cell = s.cell := rfl
    rw [exec_loopStart, exec_loopStart, hcell]
    split
    · simp only [strip, rank_pastLoop, hnext]
    · simp only [strip, hnext, List.map_cons]
  | loopEnd =>
    have hcell : (s.strip code).cell = s.cell := rfl
    have hloops : (s.strip code).loops = s.loops.map (rank code) := rfl
    cases hl : s.loops with
    | nil =>
      rw [hl, List.map_nil] at hloops
      rw [exec_loopEnd_nil code hl, exec_loopEnd_nil (bare code) hloops]
      simp only [strip, hnext]
    | cons start outer =>
      rw [hl, List.map_cons] at hloops
      -- The loop that is gone back to starts with a command, so its inside is one place further.
      have hstart := openAt_cons ((hn (lt_size_of_commandAt hc)).symm.trans hl)
      rw [exec_loopEnd_cons code hl, exec_loopEnd_cons (bare code) hloops, hcell]
      split
      · simp only [strip, hnext]
      · simp only [strip, rank_succ_of_command hstart.2.1]

theorem run_add (code : Array UInt8) (m n : Nat) (s : State) :
    run code (m + n) s = run code n (run code m s) := by
  induction m generalizing s with
  | zero => rw [Nat.zero_add, run]
  | succ m ih =>
    rw [Nat.succ_add, run, run]
    split
    next => exact ih _
    next h =>
      cases n with
      | zero => rfl
      | succ n => rw [run, dif_neg h]

theorem run_one (h : s.position < code.size) :
    run code 1 s =
      match commandAt code s.position with
      | some c => exec code c s
      | none => { s with position := s.position + 1 } := by
  rw [run, dif_pos h, execByte_at h]
  rfl

/-- Going on from one state leads to another. -/
def Reaches (code : Array UInt8) (s t : State) : Prop := ∃ n, run code n s = t

theorem Reaches.refl (code : Array UInt8) (s : State) : Reaches code s s := ⟨0, rfl⟩

theorem Reaches.trans (h : Reaches code s t) (h' : Reaches code t u) : Reaches code s u := by
  obtain ⟨m, rfl⟩ := h
  obtain ⟨n, rfl⟩ := h'
  exact ⟨m + n, run_add code m n s⟩

theorem Reaches.nested (h : Reaches code s t) (hn : s.Nested code) : t.Nested code := by
  obtain ⟨n, rfl⟩ := h
  exact nested_run hn

theorem reaches_exec (hc : commandAt code s.position = some c) :
    Reaches code s (exec code c s) := by
  refine ⟨1, ?_⟩
  rw [run_one (lt_size_of_commandAt hc), hc]

theorem reaches_strip_exec (hn : s.Nested code) (hc : commandAt code s.position = some c) :
    Reaches (bare code) (s.strip code) ((exec code c s).strip code) := by
  rw [strip_exec hn hc]
  exact reaches_exec (commandAt_bare hc)

/-- Where a program comes to, it comes without its comments. -/
theorem Reaches.strip (h : Reaches code s t) (hn : s.Nested code) :
    Reaches (bare code) (s.strip code) (t.strip code) := by
  obtain ⟨n, rfl⟩ := h
  induction n with
  | zero => exact .refl _ _
  | succ n ih =>
    refine ih.trans ?_
    have hnested : (run code n s).Nested code := nested_run hn
    rw [run_add code n 1]
    by_cases hlt : (run code n s).position < code.size
    · rw [run_one hlt]
      cases hc : commandAt code (run code n s).position with
      | some c => exact reaches_strip_exec hnested hc
      | none =>
        have hsame :
            State.strip code { run code n s with position := (run code n s).position + 1 } =
              (run code n s).strip code := by
          simp only [State.strip, rank_succ_of_comment hc]
        dsimp only
        rw [hsame]
        exact .refl _ _
    · rw [run, dif_neg hlt]
      exact .refl _ _

/-- Comments are passed until there is a command or the program ends. -/
theorem exists_reaches_command (code : Array UInt8) (s : State) :
    ∃ t, Reaches code s t ∧ t.strip code = s.strip code ∧
      (code.size ≤ t.position ∨ ∃ c, commandAt code t.position = some c) := by
  induction hn : code.size - s.position generalizing s with
  | zero => exact ⟨s, .refl _ _, rfl, Or.inl (by omega)⟩
  | succ n ih =>
    cases hc : commandAt code s.position with
    | some c => exact ⟨s, .refl _ _, rfl, Or.inr ⟨c, hc⟩⟩
    | none =>
      have hstep : Reaches code s { s with position := s.position + 1 } :=
        ⟨1, by rw [run_one (by omega), hc]⟩
      have hsame : State.strip code { s with position := s.position + 1 } = s.strip code := by
        simp only [State.strip, rank_succ_of_comment hc]
      obtain ⟨t, ht, hstrip, hend⟩ := ih { s with position := s.position + 1 } (by
        dsimp only
        omega)
      exact ⟨t, hstep.trans ht, hstrip.trans hsame, hend⟩

/-- Where a program comes without its comments, it comes with them. -/
theorem Reaches.of_strip (h : Reaches (bare code) (s.strip code) u) (hn : s.Nested code) :
    ∃ t, Reaches code s t ∧ t.strip code = u := by
  obtain ⟨n, rfl⟩ := h
  induction n with
  | zero => exact ⟨s, .refl _ _, rfl⟩
  | succ n ih =>
    obtain ⟨t, ht, hstrip⟩ := ih
    obtain ⟨t', ht', hstrip', hend⟩ := exists_reaches_command code t
    have hreach := ht.trans ht'
    have hsame := hstrip'.trans hstrip
    rw [run_add (bare code) n 1, ← hsame]
    rcases hend with hend | ⟨c, hc⟩
    · have hover : ¬ (t'.strip code).position < (bare code).size := by
        rw [Nat.not_lt]
        exact Nat.le_of_eq (rank_of_size_le hend).symm
      exact ⟨t', hreach, by rw [run, dif_neg hover]⟩
    · have hbare := commandAt_bare hc
      refine ⟨exec code c t', hreach.trans (reaches_exec hc), ?_⟩
      rw [strip_exec (hreach.nested hn) hc, run_one (rank_lt hc)]
      change _ = match commandAt (bare code) (rank code t'.position) with
        | some c => exec (bare code) c (t'.strip code)
        | none => _
      rw [hbare]

theorem isDone_strip (h : s.isDone code = true) : (s.strip code).isDone (bare code) = true :=
  decide_eq_true (Nat.le_of_eq (rank_of_size_le (of_decide_eq_true h)).symm)

/-- Without comments a program ends just if it does with them. -/
theorem exists_done_iff (hn : s.Nested code) (written : List UInt8) :
    (∃ t, Reaches (bare code) (s.strip code) t ∧ t.isDone (bare code) = true ∧
      t.written = written) ↔
    ∃ t, Reaches code s t ∧ t.isDone code = true ∧ t.written = written := by
  constructor
  · rintro ⟨u, hu, hdone, rfl⟩
    obtain ⟨t, ht, rfl⟩ := hu.of_strip hn
    obtain ⟨t', ht', hstrip, hend⟩ := exists_reaches_command code t
    have hwritten : (t'.strip code).written = (t.strip code).written := congrArg _ hstrip
    refine ⟨t', ht.trans ht', ?_, hwritten⟩
    rcases hend with hend | ⟨c, hc⟩
    · exact decide_eq_true hend
    · have hlt := rank_lt hc
      have hpos : (t'.strip code).position = (t.strip code).position := congrArg _ hstrip
      change rank code t'.position = rank code t.position at hpos
      have hle : (bare code).size ≤ rank code t.position := of_decide_eq_true hdone
      omega
  · rintro ⟨t, ht, hdone, rfl⟩
    exact ⟨t.strip code, ht.strip hn, isDone_strip hdone, rfl⟩

theorem run_of_done (h : s.isDone code = true) (n : Nat) : run code n s = s := by
  cases n with
  | zero => rfl
  | succ n =>
    have hover : ¬ s.position < code.size := Nat.not_lt.mpr (of_decide_eq_true h)
    rw [run, dif_neg hover]

theorem strip_start (code : Array UInt8) (input : Bytes) :
    (start input).strip code = start input := rfl

end State

open State

/-- Left to itself, a program comes to its end. -/
def Halts (code input : Bytes) : Prop :=
  ∃ t, Reaches code.toArray (start input) t ∧ t.isDone code.toArray = true

/-- Unless it is asked to stop before, a program ends by itself and has written `out`. -/
def Returns (code input out : Bytes) : Prop :=
  ∃ n, ∀ stop : Cancellation, n ≤ stop.after → execute code input stop = (out, none)

theorem returns_of_done {code input : Bytes} {t : State}
    (h : Reaches code.toArray (start input) t) (hdone : t.isDone code.toArray = true) :
    Returns code input t.output := by
  obtain ⟨n, rfl⟩ := h
  refine ⟨n, fun stop hle => ?_⟩
  obtain ⟨k, hk⟩ := Nat.exists_eq_add_of_le hle
  unfold execute
  dsimp only
  rw [hk, run_add, run_of_done hdone, if_pos hdone]

theorem toTape_ofTape_toArray (code : Bytes) :
    (Ook.toTape (Ook.ofTape code)).toArray = bare code.toArray := by
  rw [Ook.toTape_ofTape]
  rfl

/-- A tape program and its spelling with Ook! words both come to an end or both do not, whatever
their input, and then return the same. -/
theorem ook_text_means_the_same (code input : Bytes) :
    (Halts code input ↔ Halts (Ook.toTape (Ook.ofTape code)) input) ∧
    (Halts code input → ∃ out, Returns code input out ∧
      Returns (Ook.toTape (Ook.ofTape code)) input out) := by
  have hcode := toTape_ofTape_toArray code
  have hiff := exists_done_iff (nested_start code.toArray input)
  rw [strip_start] at hiff
  refine ⟨⟨?_, ?_⟩, ?_⟩
  · rintro ⟨t, ht, hdone⟩
    obtain ⟨u, hu, hudone, _⟩ := (hiff t.written).mpr ⟨t, ht, hdone, rfl⟩
    exact ⟨u, hcode ▸ hu, hcode ▸ hudone⟩
  · rintro ⟨u, hu, hdone⟩
    rw [hcode] at hu hdone
    obtain ⟨t, ht, htdone, _⟩ := (hiff u.written).mp ⟨u, hu, hdone, rfl⟩
    exact ⟨t, ht, htdone⟩
  · rintro ⟨t, ht, hdone⟩
    obtain ⟨u, hu, hudone, hwritten⟩ := (hiff t.written).mpr ⟨t, ht, hdone, rfl⟩
    have houtput : u.output = t.output := by
      unfold State.output
      rw [hwritten]
    refine ⟨t.output, returns_of_done ht hdone, ?_⟩
    rw [← houtput]
    exact returns_of_done (hcode ▸ hu) (hcode ▸ hudone)

end Codel.Tape
