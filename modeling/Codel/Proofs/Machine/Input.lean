import Codel.Machine.Executor
import Codel.Proofs.Text.Scalar

namespace Codel

theorem takeLine_append (bs : Bytes) : (takeLine bs).1 ++ (takeLine bs).2 = bs := by
  induction bs with
  | nil => rfl
  | cons b bs ih =>
    unfold takeLine
    split
    · rfl
    · exact congrArg (b :: ·) ih

theorem takeLine_ne_nil {bs : Bytes} (h : bs ≠ []) : (takeLine bs).1 ≠ [] := by
  cases bs with
  | nil => exact absurd rfl h
  | cons b bs =>
    unfold takeLine
    split
    · exact List.cons_ne_nil _ _
    · exact List.cons_ne_nil _ _

inductive Reading where
  | number
  | char
deriving DecidableEq, Repr

/-- One call: what it was to read, the input before it and after it, and what it returned. -/
structure Draw where
  reading : Reading
  before : Bytes
  answer : Option Int64
  after : Bytes
deriving DecidableEq, Repr

namespace Draw

/-- The bytes that a call used up, told by how many are left. -/
def taken (d : Draw) : Bytes := d.before.take (d.before.length - d.after.length)

/-- The call took one character and returned its code point, or one byte that begins no character
and returned the number of the replacement character. -/
def TakesChar (d : Draw) : Prop :=
  (∃ c : Char, d.taken = String.utf8EncodeChar c ∧ d.answer.map Int64.toInt = some c.toNat) ∨
    ∃ b, d.taken = [b] ∧ (∀ c : Char, ¬ String.utf8EncodeChar c <+: d.before) ∧
      d.answer.map Int64.toInt = some 65533

/-- A call that takes what it uses up off the front, at least a byte while there is one; reading a
character returns one just as long. -/
structure Orderly (d : Draw) : Prop where
  front : d.taken ++ d.after = d.before
  some_taken : d.before ≠ [] → d.taken ≠ []
  none_at_end : d.before = [] → d.answer = none
  char_iff : d.reading = .char → (d.answer.isSome = true ↔ d.before ≠ [])
  char : d.reading = .char → d.before ≠ [] →
    (1 ≤ d.taken.length ∧ d.taken.length ≤ 4) ∧ d.TakesChar

variable {d : Draw} {bs : Bytes}

theorem taken_eq (h : bs ++ d.after = d.before) : d.taken = bs := by
  unfold taken
  rw [← h, List.length_append, Nat.add_sub_cancel, List.take_left]

theorem TakesChar.length (h : d.TakesChar) : 1 ≤ d.taken.length ∧ d.taken.length ≤ 4 := by
  rcases h with ⟨c, htaken, _⟩ | ⟨b, htaken, _⟩
  · have hpos := c.utf8Size_pos
    have hle := c.utf8Size_le_four
    rw [htaken, String.length_utf8EncodeChar]
    omega
  · rw [htaken, List.length_singleton]
    omega

theorem TakesChar.isSome (h : d.TakesChar) : d.answer.isSome = true := by
  rcases h with ⟨c, _, hanswer⟩ | ⟨b, _, _, hanswer⟩
  · exact Option.isSome_map ▸ Option.isSome_of_eq_some hanswer
  · exact Option.isSome_map ▸ Option.isSome_of_eq_some hanswer

end Draw

theorem nextPiece?_eq_none_iff {bs : Bytes} : nextPiece? bs = none ↔ bs = [] := by
  cases bs with
  | nil => simp [nextPiece?]
  | cons b bs => simp [nextPiece?_cons]

theorem toInt_codePoint (c : Char) : (Int64.ofNat c.toNat).toInt = c.toNat := by
  have hvalid : c.toNat < 0xD800 ∨ 0xDFFF < c.toNat ∧ c.toNat < 0x110000 := c.valid
  exact Int64.toInt_ofNat_of_lt (by omega)

namespace Machine

def draw (m : Machine) : Reading → Option Int64 × Machine
  | .number => m.readNumber
  | .char => m.readChar

def call (m : Machine) (r : Reading) : Draw where
  reading := r
  before := m.input
  answer := (m.draw r).1
  after := (m.draw r).2.input

def draws : List Reading → Machine → List Draw
  | [], _ => []
  | r :: rs, m => m.call r :: draws rs (m.draw r).2

def drawn (rs : List Reading) (m : Machine) : Machine := rs.foldl (fun m r => (m.draw r).2) m

variable {m : Machine} {p : Piece} {rest : Bytes}

theorem call_number (m : Machine) :
    m.call .number =
      ⟨.number, m.input, lineNumber? (takeLine m.input).1, (takeLine m.input).2⟩ := rfl

theorem call_number_orderly (m : Machine) : (m.call .number).Orderly := by
  have hline : (takeLine m.input).1 ++ (m.call .number).after = (m.call .number).before :=
    takeLine_append m.input
  have htaken := Draw.taken_eq hline
  refine ⟨by rw [htaken, hline], ?_, ?_, ?_, ?_⟩
  · intro hne
    rw [htaken]
    exact takeLine_ne_nil hne
  · intro hend
    have hinput : m.input = [] := hend
    rw [call_number, hinput]
    rfl
  · intro hreading
    simp [call] at hreading
  · intro hreading
    simp [call] at hreading

theorem draw_char_of_piece (h : nextPiece? m.input = some (p, rest)) :
    m.draw .char = (some (Int64.ofNat p.toChar.toNat), { m with input := rest }) := by
  change m.readChar = _
  unfold readChar
  rw [h]

theorem draw_char_of_end (h : m.input = []) : m.draw .char = (none, m) := by
  change m.readChar = _
  unfold readChar
  rw [h]
  rfl

theorem call_char_of_piece (h : nextPiece? m.input = some (p, rest)) :
    m.call .char = ⟨.char, m.input, some (Int64.ofNat p.toChar.toNat), rest⟩ := by
  unfold call
  rw [draw_char_of_piece h]

theorem call_char_front (h : nextPiece? m.input = some (p, rest)) :
    p.bytes ++ (m.call .char).after = (m.call .char).before := by
  rw [call_char_of_piece h]
  exact bytes_append_of_nextPiece? h

theorem call_char_takesChar (h : nextPiece? m.input = some (p, rest)) :
    (m.call .char).TakesChar := by
  have htaken := Draw.taken_eq (call_char_front h)
  have hanswer : (m.call .char).answer.map Int64.toInt = some (p.toChar.toNat : Int) := by
    rw [call_char_of_piece h]
    exact congrArg some (toInt_codePoint p.toChar)
  cases p with
  | char c => exact Or.inl ⟨c, htaken, hanswer⟩
  | stray b => exact Or.inr ⟨b, htaken, not_prefix_of_stray h, hanswer⟩

theorem call_char_orderly (m : Machine) : (m.call .char).Orderly := by
  cases h : nextPiece? m.input with
  | none =>
    have hend : (m.call .char).before = [] := nextPiece?_eq_none_iff.mp h
    have hcall : m.call .char = ⟨.char, [], none, []⟩ := by
      unfold call
      rw [draw_char_of_end hend]
      exact congrArg (fun bs => (⟨.char, bs, none, bs⟩ : Draw)) hend
    rw [hcall]
    exact ⟨rfl, by simp, fun _ => rfl, by simp, by simp⟩
  | some piece =>
    have hfront := call_char_front h
    have htaken := Draw.taken_eq hfront
    have htakes := call_char_takesChar h
    have hne : (m.call .char).before ≠ [] := by
      intro hend
      have hnone := nextPiece?_eq_none_iff.mpr hend
      exact absurd (hnone.symm.trans h) (by simp)
    refine ⟨by rw [htaken, hfront], ?_, ?_, ?_, fun _ _ => ⟨htakes.length, htakes⟩⟩
    · intro _
      exact List.length_pos_iff.mp htakes.length.1
    · exact fun hend => absurd hend hne
    · exact fun _ => ⟨fun _ => hne, fun _ => htakes.isSome⟩

theorem call_orderly (m : Machine) (r : Reading) : (m.call r).Orderly := by
  cases r with
  | number => exact m.call_number_orderly
  | char => exact m.call_char_orderly

theorem draws_orderly (rs : List Reading) (m : Machine) : ∀ d ∈ m.draws rs, d.Orderly := by
  induction rs generalizing m with
  | nil => simp [draws]
  | cons r rs ih => exact List.forall_mem_cons.mpr ⟨m.call_orderly r, ih (m.draw r).2⟩

theorem draws_reading (rs : List Reading) (m : Machine) :
    (m.draws rs).map Draw.reading = rs := by
  induction rs generalizing m with
  | nil => rfl
  | cons r rs ih => exact congrArg (r :: ·) (ih (m.draw r).2)

/-- What calls take comes, one after the other, off the front of the input. -/
theorem taken_draws (rs : List Reading) (m : Machine) :
    (m.draws rs).flatMap Draw.taken ++ (m.drawn rs).input = m.input := by
  induction rs generalizing m with
  | nil => rfl
  | cons r rs ih =>
    have hrest := ih (m.draw r).2
    change (m.call r).taken ++ ((m.draw r).2.draws rs).flatMap Draw.taken ++ _ = _
    rw [List.append_assoc]
    exact (congrArg ((m.call r).taken ++ ·) hrest).trans (m.call_orderly r).front

/-- So each call begins where the one before it has ended. -/
theorem taken_before_draw (rs : List Reading) (m : Machine) {i : Nat} {d : Draw}
    (h : (m.draws rs)[i]? = some d) :
    ((m.draws rs).take i).flatMap Draw.taken ++ d.before = m.input := by
  induction rs generalizing m i with
  | nil => simp [draws] at h
  | cons r rs ih =>
    cases i with
    | zero =>
      obtain rfl : m.call r = d := Option.some.inj h
      rfl
    | succ i =>
      have hrest := ih (m.draw r).2 h
      change (m.call r).taken ++ (((m.draw r).2.draws rs).take i).flatMap Draw.taken ++ _ = _
      rw [List.append_assoc, hrest]
      exact (m.call_orderly r).front

/-- The characters of a text are read off its bytes, and then there is nothing left. -/
theorem draws_chars (cs : List Char) (m : Machine) (h : m.input = Bytes.ofChars cs) :
    (m.draws (List.replicate (cs.length + 1) .char)).map (fun d => d.answer.map Int64.toInt) =
      cs.map (fun c => some (c.toNat : Int)) ++ [none] := by
  induction cs generalizing m with
  | nil =>
    change [(m.draw .char).1.map Int64.toInt] = [none]
    rw [draw_char_of_end h]
    rfl
  | cons c cs ih =>
    have hpiece : nextPiece? m.input = some (.char c, Bytes.ofChars cs) := by
      rw [h]
      exact nextPiece?_utf8EncodeChar c (Bytes.ofChars cs)
    have hdraw := draw_char_of_piece hpiece
    have hrest := ih (m.draw .char).2 (by rw [hdraw])
    have hfirst : (m.draw .char).1.map Int64.toInt = some (c.toNat : Int) := by
      rw [hdraw]
      exact congrArg some (toInt_codePoint c)
    change (m.draw .char).1.map Int64.toInt :: _ = some (c.toNat : Int) :: _
    rw [hfirst]
    exact congrArg (_ :: ·) hrest

/-- Any mix of calls uses the input up once and in order. -/
theorem input_is_used_up_in_order (m : Machine) (rs : List Reading) :
    (m.draws rs).map Draw.reading = rs ∧
    (m.draws rs).flatMap Draw.taken ++ (m.drawn rs).input = m.input ∧
    (∀ (i : Nat) d, (m.draws rs)[i]? = some d →
      ((m.draws rs).take i).flatMap Draw.taken ++ d.before = m.input) ∧
    (∀ d ∈ m.draws rs, d.Orderly) ∧
    ∀ cs : List Char, m.input = Bytes.ofChars cs →
      (m.draws (List.replicate (cs.length + 1) .char)).map (fun d => d.answer.map Int64.toInt) =
        cs.map (fun c => some (c.toNat : Int)) ++ [none] := by
  refine ⟨draws_reading rs m, taken_draws rs m, ?_, draws_orderly rs m, ?_⟩
  · intro i d hd
    exact taken_before_draw rs m hd
  · intro cs hcs
    exact draws_chars cs m hcs

/-- A number is cut in two by reading a character first, and a line takes a byte that begins no
character along with it. -/
example : ((({ input := [0x31, 0x32, 0x0A, 0xC3, 0x33, 0x0A] } : Machine).draws
    [.char, .number, .number, .char]).map fun d => (d.taken, d.answer)) =
    [([0x31], some 49), ([0x32, 0x0A], some 2), ([0xC3, 0x33, 0x0A], none), ([], none)] := by
  decide

end Machine

end Codel
