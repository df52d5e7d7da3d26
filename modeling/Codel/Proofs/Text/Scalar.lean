import Codel.Text.Scalar
import Mathlib.Tactic.SplitIfs

namespace Codel

section Lead

variable {b c d e : UInt8}

/-- A continuation byte may come second unless the form would be overlong, that of half a surrogate
pair or above the last code point. -/
theorem second_mem (hc : 0x80 ≤ c.toNat ∧ c.toNat ≤ 0xBF)
    (hb : (b.toNat = 0xE0 → 0xA0 ≤ c.toNat) ∧ (b.toNat = 0xED → c.toNat ≤ 0x9F) ∧
      (b.toNat = 0xF0 → 0x90 ≤ c.toNat) ∧ (b.toNat = 0xF4 → c.toNat ≤ 0x8F)) :
    (secondRange b).1.toNat ≤ c.toNat ∧ c.toNat ≤ (secondRange b).2.toNat := by
  unfold secondRange
  simp only [← UInt8.toNat_inj, UInt8.reduceToNat]
  split_ifs <;> dsimp only [UInt8.reduceToNat] <;> omega

theorem leadPiece_one (rest : Bytes) (hb : b.toNat < 0x80) :
    leadPiece b rest = (.char (Char.ofNat b.toNat), 0) := by
  unfold leadPiece
  exact if_pos (UInt8.lt_iff_toNat_lt.mpr hb)

theorem leadPiece_two (rest : Bytes) (hb : 0xC2 ≤ b.toNat ∧ b.toNat ≤ 0xDF)
    (hc : (secondRange b).1.toNat ≤ c.toNat ∧ c.toNat ≤ (secondRange b).2.toNat) :
    leadPiece b (c :: rest) = (.char (Char.ofNat (b.toNat % 32 * 64 + tailBits c)), 1) := by
  simp only [leadPiece, UInt8.lt_iff_toNat_lt, UInt8.le_iff_toNat_le, UInt8.reduceToNat,
    Bool.and_eq_true, decide_eq_true_eq]
  rw [if_neg (by omega), if_pos hb, if_pos hc]

theorem leadPiece_three (rest : Bytes) (hb : 0xE0 ≤ b.toNat ∧ b.toNat ≤ 0xEF)
    (hc : (secondRange b).1.toNat ≤ c.toNat ∧ c.toNat ≤ (secondRange b).2.toNat)
    (hd : 0x80 ≤ d.toNat ∧ d.toNat ≤ 0xBF) :
    leadPiece b (c :: d :: rest) =
      (.char (Char.ofNat ((b.toNat % 16 * 64 + tailBits c) * 64 + tailBits d)), 2) := by
  simp only [leadPiece, isTail, UInt8.lt_iff_toNat_lt, UInt8.le_iff_toNat_le, UInt8.reduceToNat,
    Bool.and_eq_true, decide_eq_true_eq]
  rw [if_neg (by omega), if_neg (by omega), if_pos hb, if_pos ⟨hc, hd⟩]

theorem leadPiece_four (rest : Bytes) (hb : 0xF0 ≤ b.toNat ∧ b.toNat ≤ 0xF4)
    (hc : (secondRange b).1.toNat ≤ c.toNat ∧ c.toNat ≤ (secondRange b).2.toNat)
    (hd : 0x80 ≤ d.toNat ∧ d.toNat ≤ 0xBF) (he : 0x80 ≤ e.toNat ∧ e.toNat ≤ 0xBF) :
    leadPiece b (c :: d :: e :: rest) =
      (.char (Char.ofNat
        (((b.toNat % 8 * 64 + tailBits c) * 64 + tailBits d) * 64 + tailBits e)), 3) := by
  simp only [leadPiece, isTail, UInt8.lt_iff_toNat_lt, UInt8.le_iff_toNat_le, UInt8.reduceToNat,
    Bool.and_eq_true, decide_eq_true_eq]
  rw [if_neg (by omega), if_neg (by omega), if_neg (by omega), if_pos hb, if_pos ⟨⟨hc, hd⟩, he⟩]

end Lead

theorem nextPiece?_cons (b : UInt8) (rest : Bytes) :
    nextPiece? (b :: rest) = some ((leadPiece b rest).1, rest.drop (leadPiece b rest).2) := rfl

theorem nextPiece?_of_leadPiece {b : UInt8} {front rest : Bytes} {p : Piece}
    (h : leadPiece b (front ++ rest) = (p, front.length)) :
    nextPiece? (b :: front ++ rest) = some (p, rest) := by
  rw [List.cons_append, nextPiece?_cons, h, List.drop_left]

theorem toNat_ofNat_byte {n : Nat} (h : n < 256) : (UInt8.ofNat n).toNat = n := by
  rw [UInt8.toNat_ofNat', Nat.mod_eq_of_lt h]

/-- A character is read off its bytes, whatever follows them. -/
theorem nextPiece?_utf8EncodeChar (c : Char) (rest : Bytes) :
    nextPiece? (String.utf8EncodeChar c ++ rest) = some (.char c, rest) := by
  have hvalid : c.toNat < 0xD800 ∨ 0xDFFF < c.toNat ∧ c.toNat < 0x110000 := c.valid
  have hself : ∀ {n : Nat}, n = c.toNat → Char.ofNat n = c := by
    rintro n rfl
    exact c.ofNat_toNat
  have hlast : (UInt8.ofNat (c.toNat % 64 + 128)).toNat = c.toNat % 64 + 128 :=
    toNat_ofNat_byte (by omega)
  have hthird : (UInt8.ofNat (c.toNat / 64 % 64 + 128)).toNat = c.toNat / 64 % 64 + 128 :=
    toNat_ofNat_byte (by omega)
  have hsecond : (UInt8.ofNat (c.toNat / 4096 % 64 + 128)).toNat = c.toNat / 4096 % 64 + 128 :=
    toNat_ofNat_byte (by omega)
  rw [String.utf8EncodeChar.eq_1]
  simp only [Char.toNat_val]
  split_ifs with h1 h2 h3
  · have hb : (UInt8.ofNat c.toNat).toNat = c.toNat := toNat_ofNat_byte (by omega)
    apply nextPiece?_of_leadPiece
    refine (leadPiece_one rest (by omega)).trans ?_
    rw [hself hb]
    rfl
  · have hb : (UInt8.ofNat (c.toNat / 64 % 32 + 192)).toNat = c.toNat / 64 % 32 + 192 :=
      toNat_ofNat_byte (by omega)
    apply nextPiece?_of_leadPiece
    refine (leadPiece_two rest (by omega) (second_mem (by omega) (by omega))).trans ?_
    rw [tailBits, hb, hlast, hself (by omega)]
    rfl
  · have hb : (UInt8.ofNat (c.toNat / 4096 % 16 + 224)).toNat = c.toNat / 4096 % 16 + 224 :=
      toNat_ofNat_byte (by omega)
    apply nextPiece?_of_leadPiece
    refine (leadPiece_three rest (by omega) (second_mem (by omega) (by omega)) (by omega)).trans ?_
    rw [tailBits, tailBits, hb, hthird, hlast, hself (by omega)]
    rfl
  · have hb : (UInt8.ofNat (c.toNat / 262144 % 8 + 240)).toNat = c.toNat / 262144 % 8 + 240 :=
      toNat_ofNat_byte (by omega)
    apply nextPiece?_of_leadPiece
    refine (leadPiece_four rest (by omega) (second_mem (by omega) (by omega)) (by omega)
      (by omega)).trans ?_
    rw [tailBits, tailBits, tailBits, hb, hsecond, hthird, hlast, hself (by omega)]
    rfl

theorem piecesAfter_eq (skip : Nat) (bs : Bytes) : piecesAfter skip bs = pieces (bs.drop skip) := by
  induction skip generalizing bs with
  | zero => rfl
  | succ skip ih =>
    cases bs with
    | nil => rfl
    | cons b bs => exact ih bs

theorem pieces_of_nextPiece? {bs rest : Bytes} {p : Piece} (h : nextPiece? bs = some (p, rest)) :
    pieces bs = p :: pieces rest := by
  cases bs with
  | nil => simp [nextPiece?] at h
  | cons b bs =>
    rw [nextPiece?_cons, Option.some.injEq, Prod.mk.injEq] at h
    change (leadPiece b bs).1 :: piecesAfter (leadPiece b bs).2 bs = _
    rw [piecesAfter_eq, h.1, h.2]

section Writing

variable {n : Nat} {b c : UInt8} {bs rest : Bytes} {p : Piece}

theorem toNat_val_ofNat (h : n.isValidChar) : (Char.ofNat n).val.toNat = n := by
  unfold Char.ofNat
  rw [dif_pos h]
  rfl

theorem ofNat_eq_of_toNat (h : n = b.toNat) : UInt8.ofNat n = b := by
  rw [h, UInt8.ofNat_toNat]

theorem utf8EncodeChar_one (h : n < 0x80) : String.utf8EncodeChar (Char.ofNat n) = [.ofNat n] := by
  rw [String.utf8EncodeChar.eq_1, toNat_val_ofNat (Or.inl (by omega)), if_pos (by omega)]

theorem utf8EncodeChar_two (h : 0x80 ≤ n ∧ n < 0x800) : String.utf8EncodeChar (Char.ofNat n) =
    [.ofNat (n / 64 % 32 + 192), .ofNat (n % 64 + 128)] := by
  rw [String.utf8EncodeChar.eq_1, toNat_val_ofNat (Or.inl (by omega)), if_neg (by omega),
    if_pos (by omega)]

theorem utf8EncodeChar_three (h : 0x800 ≤ n ∧ n < 0x10000) (hvalid : n.isValidChar) :
    String.utf8EncodeChar (Char.ofNat n) =
      [.ofNat (n / 4096 % 16 + 224), .ofNat (n / 64 % 64 + 128), .ofNat (n % 64 + 128)] := by
  rw [String.utf8EncodeChar.eq_1, toNat_val_ofNat hvalid, if_neg (by omega), if_neg (by omega),
    if_pos (by omega)]

theorem utf8EncodeChar_four (h : 0x10000 ≤ n ∧ n < 0x110000) :
    String.utf8EncodeChar (Char.ofNat n) =
      [.ofNat (n / 262144 % 8 + 240), .ofNat (n / 4096 % 64 + 128), .ofNat (n / 64 % 64 + 128),
        .ofNat (n % 64 + 128)] := by
  rw [String.utf8EncodeChar.eq_1, toNat_val_ofNat (Or.inr (by omega)), if_neg (by omega),
    if_neg (by omega), if_neg (by omega)]

theorem isTail_bounds (h : isTail b = true) : 0x80 ≤ b.toNat ∧ b.toNat ≤ 0xBF := by
  simpa [isTail, UInt8.le_iff_toNat_le] using h

theorem second_bounds (h : (secondRange b).1 ≤ c ∧ c ≤ (secondRange b).2) :
    (0x80 ≤ c.toNat ∧ c.toNat ≤ 0xBF) ∧ (b.toNat = 0xE0 → 0xA0 ≤ c.toNat) ∧
      (b.toNat = 0xED → c.toNat ≤ 0x9F) ∧ (b.toNat = 0xF0 → 0x90 ≤ c.toNat) ∧
      (b.toNat = 0xF4 → c.toNat ≤ 0x8F) := by
  revert h
  unfold secondRange
  simp only [UInt8.le_iff_toNat_le, ← UInt8.toNat_inj, UInt8.reduceToNat]
  split_ifs <;> dsimp only [UInt8.reduceToNat] <;> omega

/-- The bytes that a piece takes are those that it is written with. -/
theorem bytes_leadPiece (b : UInt8) (rest : Bytes) :
    (leadPiece b rest).1.bytes = b :: rest.take (leadPiece b rest).2 := by
  fun_cases leadPiece b rest with
  | case1 _ hb =>
    have hlow : b.toNat < 0x80 := UInt8.lt_iff_toNat_lt.mp hb
    change String.utf8EncodeChar (Char.ofNat b.toNat) = [b]
    rw [utf8EncodeChar_one hlow, UInt8.ofNat_toNat]
  | case2 second _ hb c tail hc =>
    simp only [second, Bool.and_eq_true, decide_eq_true_eq] at hb hc
    simp only [UInt8.le_iff_toNat_le, UInt8.reduceToNat] at hb
    obtain ⟨hc, _⟩ := second_bounds hc
    change String.utf8EncodeChar (Char.ofNat (b.toNat % 32 * 64 + c.toNat % 64)) = [b, c]
    rw [utf8EncodeChar_two (by omega), ofNat_eq_of_toNat (b := b) (by omega),
      ofNat_eq_of_toNat (b := c) (by omega)]
  | case5 second _ _ hb c d tail hcd =>
    simp only [second, Bool.and_eq_true, decide_eq_true_eq] at hb hcd
    simp only [UInt8.le_iff_toNat_le, UInt8.reduceToNat] at hb
    obtain ⟨hc, hE0, hED, _⟩ := second_bounds hcd.1
    have hd := isTail_bounds hcd.2
    -- Not overlong by what may follow 0xE0, and no surrogate by what may follow 0xED.
    have hvalid : ((b.toNat % 16 * 64 + c.toNat % 64) * 64 + d.toNat % 64).isValidChar := by
      unfold Nat.isValidChar
      omega
    change String.utf8EncodeChar
      (Char.ofNat ((b.toNat % 16 * 64 + c.toNat % 64) * 64 + d.toNat % 64)) = [b, c, d]
    rw [utf8EncodeChar_three (by omega) hvalid, ofNat_eq_of_toNat (b := b) (by omega),
      ofNat_eq_of_toNat (b := c) (by omega), ofNat_eq_of_toNat (b := d) (by omega)]
  | case8 second _ _ _ hb c d e tail hcde =>
    simp only [second, Bool.and_eq_true, decide_eq_true_eq] at hb hcde
    simp only [UInt8.le_iff_toNat_le, UInt8.reduceToNat] at hb
    obtain ⟨hc, _, _, hF0, hF4⟩ := second_bounds hcde.1.1
    have hd := isTail_bounds hcde.1.2
    have he := isTail_bounds hcde.2
    change String.utf8EncodeChar (Char.ofNat
      (((b.toNat % 8 * 64 + c.toNat % 64) * 64 + d.toNat % 64) * 64 + e.toNat % 64)) = [b, c, d, e]
    rw [utf8EncodeChar_four (by omega), ofNat_eq_of_toNat (b := b) (by omega),
      ofNat_eq_of_toNat (b := c) (by omega), ofNat_eq_of_toNat (b := d) (by omega),
      ofNat_eq_of_toNat (b := e) (by omega)]
  | _ => rfl

theorem bytes_append_of_nextPiece? (h : nextPiece? bs = some (p, rest)) : p.bytes ++ rest = bs := by
  cases bs with
  | nil => simp [nextPiece?] at h
  | cons b bs =>
    rw [nextPiece?_cons, Option.some.injEq, Prod.mk.injEq] at h
    obtain ⟨rfl, rfl⟩ := h
    rw [bytes_leadPiece, List.cons_append, List.take_append_drop]

theorem not_prefix_of_stray (h : nextPiece? bs = some (.stray b, rest)) (c : Char) :
    ¬ String.utf8EncodeChar c <+: bs := by
  rintro ⟨tail, rfl⟩
  rw [nextPiece?_utf8EncodeChar] at h
  simp at h

end Writing

section Cutting

variable {c : UInt8}

theorem leadPiece_width_le (b : UInt8) (rest : Bytes) : (leadPiece b rest).2 ≤ rest.length := by
  fun_cases leadPiece b rest with
  | case2 _ _ _ c tail | case5 _ _ _ _ c d tail | case8 _ _ _ _ _ c d e tail =>
    simp only [List.length_cons]
    omega
  | _ => exact Nat.zero_le _

theorem leadPiece_append_ascii (hc : c.toNat < 0x80) (b : UInt8) (front rest : Bytes) :
    leadPiece b (front ++ c :: rest) = leadPiece b front := by
  have htail : isTail c = false := by
    simp only [isTail, UInt8.le_iff_toNat_le, UInt8.reduceToNat, Bool.and_eq_false_iff,
      decide_eq_false_iff_not]
    omega
  have hsecond : ¬ (secondRange b).1 ≤ c := by
    rw [UInt8.le_iff_toNat_le]
    unfold secondRange
    split_ifs <;> dsimp only [UInt8.reduceToNat] <;> omega
  -- Three bytes after the first are looked at, and where `c` is among them it makes the lead stray.
  rcases front with _ | ⟨x, _ | ⟨y, _ | ⟨z, front⟩⟩⟩
  case cons.cons.cons => rfl
  all_goals
    rcases rest with _ | ⟨d, _ | ⟨e, rest⟩⟩ <;>
    simp only [leadPiece, List.nil_append, List.cons_append, htail, hsecond, decide_false,
      Bool.false_and, Bool.and_false, Bool.false_eq_true, if_false]

/-- No character goes on past a byte of ASCII, whatever stands before it. -/
theorem pieces_append_ascii (hc : c.toNat < 0x80) (front rest : Bytes) :
    pieces (front ++ c :: rest) = pieces front ++ .char (Char.ofNat c.toNat) :: pieces rest := by
  generalize hlength : front.length = n
  induction n using Nat.strongRecOn generalizing front with
  | ind n ih =>
    cases front with
    | nil =>
      have hnext : nextPiece? (c :: rest) = some (.char (Char.ofNat c.toNat), rest) := by
        rw [nextPiece?_cons, leadPiece_one rest hc, List.drop_zero]
      exact pieces_of_nextPiece? hnext
    | cons b front =>
      have hnext := nextPiece?_cons b (front ++ c :: rest)
      rw [leadPiece_append_ascii hc,
        List.drop_append_of_le_length (leadPiece_width_le b front)] at hnext
      have hshorter : (front.drop (leadPiece b front).2).length < n := by
        rw [List.length_drop]
        rw [List.length_cons] at hlength
        omega
      rw [List.cons_append, pieces_of_nextPiece? hnext, ih _ hshorter _ rfl,
        pieces_of_nextPiece? (nextPiece?_cons b front), List.cons_append]

end Cutting

section Order

/-- Of two characters the bytes of the lower one come first, whatever follows them. -/
theorem utf8EncodeChar_append_lt {c d : Char} (h : c < d) (bs cs : Bytes) :
    String.utf8EncodeChar c ++ bs < String.utf8EncodeChar d ++ cs := by
  have hlt : c.toNat < d.toNat := h
  have hvalid : d.toNat < 0xD800 ∨ 0xDFFF < d.toNat ∧ d.toNat < 0x110000 := d.valid
  have htwo (n : Nat) : (UInt8.ofNat (n % 32 + 192)).toNat = n % 32 + 192 :=
    toNat_ofNat_byte (by omega)
  have hthree (n : Nat) : (UInt8.ofNat (n % 16 + 224)).toNat = n % 16 + 224 :=
    toNat_ofNat_byte (by omega)
  have hfour (n : Nat) : (UInt8.ofNat (n % 8 + 240)).toNat = n % 8 + 240 :=
    toNat_ofNat_byte (by omega)
  have htail (n : Nat) : (UInt8.ofNat (n % 64 + 128)).toNat = n % 64 + 128 :=
    toNat_ofNat_byte (by omega)
  -- Digit by digit, so that the lower digits count only where the upper ones agree.
  have hsecond (n : Nat) : n / 4096 = n / 64 / 64 := by omega
  have hfirst (n : Nat) : n / 262144 = n / 64 / 64 / 64 := by omega
  rw [String.utf8EncodeChar.eq_1, String.utf8EncodeChar.eq_1]
  simp only [Char.toNat_val, hsecond, hfirst]
  split_ifs <;>
    simp only [List.cons_append, List.nil_append, List.cons_lt_cons_iff, UInt8.lt_iff_toNat_lt,
      ← UInt8.toNat_inj, UInt8.toNat_ofNat', htwo, hthree, hfour, htail] <;>
    omega

theorem ofChars_lt_ofChars {cs ds : List Char} (h : cs < ds) :
    Bytes.ofChars cs < Bytes.ofChars ds := by
  induction h with
  | @nil d ds =>
    obtain ⟨b, bs, hbytes⟩ := List.exists_cons_of_ne_nil (String.utf8EncodeChar_ne_nil (c := d))
    change [] < String.utf8EncodeChar d ++ Bytes.ofChars ds
    rw [hbytes]
    exact List.Lex.nil
  | rel hlt => exact utf8EncodeChar_append_lt hlt _ _
  | cons _ ih => exact List.append_left_lt ih

theorem ofString_lt_ofString {s t : String} (h : s < t) : Bytes.ofString s < Bytes.ofString t :=
  ofChars_lt_ofChars h

end Order

theorem pieces_ofChars (cs : List Char) : pieces (Bytes.ofChars cs) = cs.map .char := by
  induction cs with
  | nil => rfl
  | cons c cs ih =>
    have hnext := nextPiece?_utf8EncodeChar c (Bytes.ofChars cs)
    change pieces (String.utf8EncodeChar c ++ Bytes.ofChars cs) = _
    rw [pieces_of_nextPiece? hnext, ih, List.map_cons]

theorem flatMap_bytes_pieces (bs : Bytes) : (pieces bs).flatMap Piece.bytes = bs := by
  generalize hlength : bs.length = n
  induction n using Nat.strongRecOn generalizing bs with
  | ind n ih =>
    cases bs with
    | nil => rfl
    | cons b rest =>
      have hnext := nextPiece?_cons b rest
      have hshorter : (rest.drop (leadPiece b rest).2).length < n := by
        rw [List.length_drop]
        rw [List.length_cons] at hlength
        omega
      rw [pieces_of_nextPiece? hnext, List.flatMap_cons, ih _ hshorter _ rfl]
      exact bytes_append_of_nextPiece? hnext

theorem eq_ofChars_of_pieces {bs : Bytes} {cs : List Char} (h : pieces bs = cs.map .char) :
    bs = Bytes.ofChars cs := by
  rw [← flatMap_bytes_pieces bs, h, List.flatMap_map]
  rfl

end Codel
