import Codel.Proofs.Tape.Spelling
import Mathlib.Algebra.Group.Nat.Even

namespace Codel

namespace Tape

open Command (ofByte? ofByte?_byte)

variable {b : UInt8} {c : Command}

theorem ofByte?_eq_some_iff : ofByte? b = some c ↔ b = c.byte := by
  constructor
  · intro h
    unfold ofByte? at h
    split_ifs at h <;> cases Option.some.inj h <;> assumption
  · rintro rfl
    exact ofByte?_byte c

/-- The bytes that are commands. -/
def signs : Bytes := Bytes.ofString "><+-.,[]"

theorem mem_signs_iff : b ∈ signs ↔ ∃ c : Command, b = c.byte := by
  have hsigns : signs = Command.all.map Command.byte := by decide
  rw [hsigns, List.mem_map]
  constructor
  · rintro ⟨c, _, rfl⟩
    exact ⟨c, rfl⟩
  · rintro ⟨c, rfl⟩
    have hall : c ∈ Command.all := by cases c <;> decide
    exact ⟨c, hall, rfl⟩

theorem map_byte_commands (code : Bytes) :
    (commands code).map Command.byte = code.filter (· ∈ signs) := by
  induction code with
  | nil => rfl
  | cons b code ih =>
    unfold commands at ih ⊢
    cases hb : ofByte? b with
    | some c =>
      obtain rfl := ofByte?_eq_some_iff.mp hb
      have hmem : c.byte ∈ signs := mem_signs_iff.mpr ⟨c, rfl⟩
      rw [List.filterMap_cons_some hb, List.map_cons, ih,
        List.filter_cons_of_pos (by simpa using hmem)]
    | none =>
      have hmem : b ∉ signs := by
        intro h
        obtain ⟨c, rfl⟩ := mem_signs_iff.mp h
        rw [ofByte?_byte] at hb
        cases hb
      rw [List.filterMap_cons_none hb, ih, List.filter_cons_of_neg (by simpa using hmem)]

end Tape

namespace Ook

open Tape (signs)

theorem toTape_ofTape_eq_filter (code : Bytes) : toTape (ofTape code) = code.filter (· ∈ signs) := by
  rw [toTape_ofTape, Tape.map_byte_commands]

theorem mem_signs_of_mem_toTape {text : Bytes} {b : UInt8} (h : b ∈ toTape text) : b ∈ signs := by
  obtain ⟨c, _, rfl⟩ := List.mem_map.mp h
  exact Tape.mem_signs_iff.mpr ⟨c, rfl⟩

section Cutting

variable {front : Bytes} {vs : List (List Piece)}

/-- Whatever bytes stand on either side, a space belongs to no word and to no character. -/
theorem wordsOf_append_space (front rest : Bytes) :
    wordsOf (front ++ 0x20 :: rest) = wordsOf front ++ wordsOf rest := by
  unfold wordsOf
  rw [pieces_append_ascii (by decide)]
  exact wordsFrom_append_blank rfl

theorem tokens_append_space (front rest : Bytes) :
    tokens (front ++ 0x20 :: rest) = tokens front ++ tokens rest := by
  unfold tokens
  rw [wordsOf_append_space, List.filter_append]

theorem pairCommands_append (h : Even vs.length) (ws : List (List Piece)) :
    pairCommands (vs ++ ws) = pairCommands vs ++ pairCommands ws := by
  fun_induction pairCommands vs with
  | case1 v w rest ih =>
    have hrest : Even rest.length := by
      rw [Nat.even_iff, List.length_cons, List.length_cons] at h
      rw [Nat.even_iff]
      omega
    rw [List.cons_append, List.cons_append, pairCommands, ih hrest, List.append_assoc]
  | case2 vs hshort =>
    have hnil : vs = [] := by
      match vs, hshort with
      | [], _ => rfl
      | [v], _ => exact absurd h Nat.not_even_one
      | v :: w :: rest, hshort => exact absurd rfl (hshort v w rest)
    rw [hnil]
    rfl

theorem toTape_append_space (h : Even (tokens front).length) (rest : Bytes) :
    toTape (front ++ 0x20 :: rest) = toTape front ++ toTape rest := by
  unfold toTape
  rw [tokens_append_space, pairCommands_append h, List.map_append]

end Cutting

/-- A tape program comes back from its spelling without its comments, what a text stands for holds
commands only and comes back as it is, and a text whose front holds an even number of words that
count stands for what its two parts stand for. -/
theorem translations_undo_each_other :
    (∀ code : Bytes, toTape (ofTape code) = code.filter (· ∈ signs)) ∧
    (∀ text : Bytes, (∀ b ∈ toTape text, b ∈ signs) ∧
      toTape (ofTape (toTape text)) = toTape text) ∧
    ∀ front rest : Bytes, Even (tokens front).length →
      toTape (front ++ Bytes.ofString " " ++ rest) = toTape front ++ toTape rest := by
  refine ⟨toTape_ofTape_eq_filter, fun text => ⟨fun b hb => mem_signs_of_mem_toTape hb, ?_⟩,
    fun front rest h => ?_⟩
  · rw [toTape_ofTape_eq_filter, List.filter_eq_self]
    intro b hb
    exact decide_eq_true (mem_signs_of_mem_toTape hb)
  · have hspace : front ++ Bytes.ofString " " ++ rest = front ++ 0x20 :: rest :=
      List.append_assoc front [0x20] rest
    rw [hspace, toTape_append_space h]

/-- A front with a word that counts and stands for nothing, and a character cut in two by the
space, which would be white space itself. -/
theorem translations_undo_each_other_cut :
    let front : Bytes := Bytes.ofString "Ooks! Ook? Ook! Ook! x" ++ [0xE2, 0x80]
    let rest : Bytes := 0xA8 :: Bytes.ofString " Ook. Ook?"
    Even (tokens front).length ∧ toTape front = Bytes.ofString "-" ∧
      toTape rest = Bytes.ofString ">" ∧
      toTape (front ++ Bytes.ofString " " ++ rest) = Bytes.ofString "->" := by
  intro front rest
  have heven : Even (tokens front).length := by decide +kernel
  have hfront : toTape front = Bytes.ofString "-" := by decide +kernel
  have hrest : toTape rest = Bytes.ofString ">" := by decide +kernel
  refine ⟨heven, hfront, hrest, ?_⟩
  rw [translations_undo_each_other.2.2 front rest heven, hfront, hrest]
  decide

end Ook

end Codel
