import Codel.Proofs.Text.Scalar
import Codel.Tape.Ook

namespace Codel

section Words

variable {word ps qs : List Piece} {p : Piece}

theorem wordsFrom_of_not_blank (hps : ∀ p ∈ ps, p.isBlank = false) :
    wordsFrom word ps = if word ++ ps = [] then [] else [word ++ ps] := by
  induction ps generalizing word with
  | nil => simp [wordsFrom]
  | cons p ps ih =>
    obtain ⟨hp, hps⟩ := List.forall_mem_cons.mp hps
    rw [wordsFrom, hp, if_neg Bool.false_ne_true, ih hps, List.append_assoc]
    rfl

/-- Words are cut at a blank. -/
theorem wordsFrom_append_blank (hp : p.isBlank = true) :
    wordsFrom word (qs ++ p :: ps) = wordsFrom word qs ++ wordsFrom [] ps := by
  induction qs generalizing word with
  | nil =>
    rw [List.nil_append, wordsFrom.eq_2, if_pos hp, wordsFrom.eq_1]
    split <;> rfl
  | cons q qs ih =>
    rw [List.cons_append, wordsFrom, wordsFrom]
    split
    · split
      · exact ih
      · rw [ih, List.cons_append]
    · exact ih

theorem wordsOf_intercalate {words : List (List Char)}
    (h : ∀ w ∈ words, w ≠ [] ∧ ∀ c ∈ w, isBlank c = false) :
    wordsOf (Bytes.ofChars (List.intercalate [' '] words)) = words.map (·.map .char) := by
  unfold wordsOf
  rw [pieces_ofChars]
  induction words with
  | nil => rfl
  | cons w words ih =>
    obtain ⟨⟨hne, hw⟩, hwords⟩ := List.forall_mem_cons.mp h
    have hfirst : wordsFrom [] (w.map .char) = [w.map .char] := by
      rw [wordsFrom_of_not_blank (List.forall_mem_map.mpr hw), List.nil_append, if_neg (by simpa)]
    cases words with
    | nil => simpa using hfirst
    | cons v words =>
      have hcut : List.intercalate [' '] (w :: v :: words) =
          w ++ ' ' :: List.intercalate [' '] (v :: words) := by simp [List.intercalate]
      rw [hcut, List.map_append, List.map_cons, wordsFrom_append_blank rfl, hfirst, ih hwords]
      rfl

end Words

namespace Ook

open Tape (Command commands)

theorem word_not_blank (m : Mark) : word m ≠ [] ∧ ∀ c ∈ word m, isBlank c = false := by
  have hall : (word m).all (fun c => !isBlank c) = true := by cases m <;> decide
  refine ⟨List.cons_ne_nil _ _, fun c hc => ?_⟩
  simpa using List.all_eq_true.mp hall c hc

theorem isToken_word (m : Mark) : isToken ((word m).map .char) = true := by
  cases m <;> decide

theorem mark?_word (m : Mark) : mark? ((word m).map .char) = some m := by
  cases m <;> decide

theorem pairCommand?_words (c : Command) :
    pairCommand? ((word (marks c).1).map .char) ((word (marks c).2).map .char) = some c := by
  unfold pairCommand?
  rw [mark?_word, mark?_word]
  exact command?_marks c

/-- The words of commands, two for each. -/
def wordsOfCommands (cs : List Command) : List (List Char) :=
  cs.flatMap fun c => [word (marks c).1, word (marks c).2]

theorem mem_wordsOfCommands {cs : List Command} {w : List Char} (h : w ∈ wordsOfCommands cs) :
    ∃ m, w = word m := by
  obtain ⟨c, _, hw⟩ := List.mem_flatMap.mp h
  rcases List.mem_cons.mp hw with rfl | hw
  · exact ⟨_, rfl⟩
  · exact ⟨_, List.mem_singleton.mp hw⟩

theorem tokens_ofTape (code : Bytes) :
    tokens (ofTape code) = (wordsOfCommands (commands code)).map (·.map .char) := by
  have hwords : wordsOf (ofTape code) = (wordsOfCommands (commands code)).map (·.map .char) := by
    apply wordsOf_intercalate
    intro w hw
    obtain ⟨m, rfl⟩ := mem_wordsOfCommands hw
    exact word_not_blank m
  unfold tokens
  rw [hwords, List.filter_eq_self]
  intro v hv
  obtain ⟨w, hw, rfl⟩ := List.mem_map.mp hv
  obtain ⟨m, rfl⟩ := mem_wordsOfCommands hw
  exact isToken_word m

theorem pairCommands_words (cs : List Command) :
    pairCommands ((wordsOfCommands cs).map (·.map .char)) = cs := by
  induction cs with
  | nil => rfl
  | cons c cs ih =>
    change (pairCommand? ((word (marks c).1).map .char) ((word (marks c).2).map .char)).toList ++
      pairCommands ((wordsOfCommands cs).map (·.map .char)) = _
    rw [pairCommand?_words, ih]
    rfl

/-- Reading the words of a program gives its commands without the comments. -/
theorem toTape_ofTape (code : Bytes) :
    toTape (ofTape code) = (commands code).map Command.byte := by
  unfold toTape
  rw [tokens_ofTape, pairCommands_words]

end Ook

end Codel
