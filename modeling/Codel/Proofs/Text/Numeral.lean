import Codel.Machine.Basic
import Codel.Proofs.Text.Scalar
import Mathlib.Algebra.Group.Int.Defs
import Mathlib.Data.List.TakeWhile

namespace Codel

/-- The text of an integer. -/
inductive Numeral : List Char → Int → Prop
  | bare {ds : List Char} : ds ≠ [] → (∀ d ∈ ds, d.isDigit = true) →
    Numeral ds (Nat.ofDigitChars 10 ds 0)
  | plus {ds : List Char} : ds ≠ [] → (∀ d ∈ ds, d.isDigit = true) →
    Numeral ('+' :: ds) (Nat.ofDigitChars 10 ds 0)
  | minus {ds : List Char} : ds ≠ [] → (∀ d ∈ ds, d.isDigit = true) →
    Numeral ('-' :: ds) (-(Nat.ofDigitChars 10 ds 0 : Int))

section Integers

variable {cs ds : List Char} {z : Int} {n : Int64}

theorem word?_eq_some_iff : word? z = some n ↔ n.toInt = z := by
  unfold word?
  constructor
  · intro h
    split at h
    next hrange =>
      cases Option.some.inj h
      exact Int64.toInt_ofInt_of_le (by omega) (by omega)
    next => simp at h
  · rintro rfl
    have hlow := n.le_toInt
    have hhigh := n.toInt_lt
    rw [if_pos (by omega), Int64.ofInt_toInt]

theorem splitSign_cases (cs : List Char) :
    (∃ ds, cs = '-' :: ds ∧ splitSign cs = (true, ds)) ∨
      (∃ ds, cs = '+' :: ds ∧ splitSign cs = (false, ds)) ∨ splitSign cs = (false, cs) := by
  fun_cases splitSign cs with
  | case1 ds => exact Or.inl ⟨ds, rfl, rfl⟩
  | case2 ds => exact Or.inr (Or.inl ⟨ds, rfl, rfl⟩)
  | case3 => exact Or.inr (Or.inr rfl)

theorem splitSign_digits (h : ∀ d ∈ ds, d.isDigit = true) : splitSign ds = (false, ds) := by
  rcases splitSign_cases ds with ⟨rest, rfl, _⟩ | ⟨rest, rfl, _⟩ | hsame
  · exact absurd (h '-' List.mem_cons_self) (by decide)
  · exact absurd (h '+' List.mem_cons_self) (by decide)
  · exact hsame

theorem readDecimal?_of_split {neg : Bool} (h : splitSign cs = (neg, ds)) :
    readDecimal? cs = some n ↔ (ds ≠ [] ∧ ∀ d ∈ ds, d.isDigit = true) ∧
      n.toInt = if neg then -(Nat.ofDigitChars 10 ds 0 : Int) else Nat.ofDigitChars 10 ds 0 := by
  unfold readDecimal?
  rw [h]
  simp only [List.all_eq_true]
  split
  next hdigits => rw [word?_eq_some_iff, and_iff_right hdigits]
  next hdigits => exact iff_of_false (by simp) fun h => hdigits h.1

theorem readDecimal?_eq_some_iff : readDecimal? cs = some n ↔ Numeral cs n.toInt := by
  constructor
  · intro h
    rcases splitSign_cases cs with ⟨ds, rfl, hsplit⟩ | ⟨ds, rfl, hsplit⟩ | hsplit
    · obtain ⟨⟨hne, hdigits⟩, hn⟩ := (readDecimal?_of_split hsplit).mp h
      exact hn ▸ Numeral.minus hne hdigits
    · obtain ⟨⟨hne, hdigits⟩, hn⟩ := (readDecimal?_of_split hsplit).mp h
      exact hn ▸ Numeral.plus hne hdigits
    · obtain ⟨⟨hne, hdigits⟩, hn⟩ := (readDecimal?_of_split hsplit).mp h
      exact hn ▸ Numeral.bare hne hdigits
  · intro h
    generalize hz : n.toInt = z at h
    cases h with
    | bare hne hdigits =>
      exact (readDecimal?_of_split (splitSign_digits hdigits)).mpr ⟨⟨hne, hdigits⟩, hz⟩
    | plus hne hdigits => exact (readDecimal?_of_split rfl).mpr ⟨⟨hne, hdigits⟩, hz⟩
    | minus hne hdigits => exact (readDecimal?_of_split rfl).mpr ⟨⟨hne, hdigits⟩, hz⟩

/-- What is written is a text of the integer, of which there are others. -/
theorem numeral_decimal (z : Int) : Numeral (decimal z) z := by
  have hne : Nat.toDigits 10 z.natAbs ≠ [] := Nat.toDigits_ne_nil
  have hdigits : ∀ d ∈ Nat.toDigits 10 z.natAbs, d.isDigit = true :=
    fun d hd => Nat.isDigit_of_mem_toDigits (by decide) (by decide) hd
  have hvalue : Nat.ofDigitChars 10 (Nat.toDigits 10 z.natAbs) 0 = z.natAbs :=
    Nat.ofDigitChars_ten_toDigits
  unfold decimal
  split
  next hneg =>
    have hnumeral := Numeral.minus hne hdigits
    have hz : -(z.natAbs : Int) = z := by omega
    rwa [hvalue, hz] at hnumeral
  next hneg =>
    have hnumeral := Numeral.bare hne hdigits
    have hz : (z.natAbs : Int) = z := by omega
    rwa [hvalue, hz] at hnumeral

theorem digit_bounds {c : Char} (h : c.isDigit = true) : 48 ≤ c.toNat ∧ c.toNat ≤ 57 := by
  have hval : 48 ≤ c.val ∧ c.val ≤ 57 := by simpa [Char.isDigit] using h
  exact ⟨UInt32.le_iff_toNat_le.mp hval.1, UInt32.le_iff_toNat_le.mp hval.2⟩

theorem Numeral.ne_nil (h : Numeral cs z) : cs ≠ [] := by
  cases h with
  | bare hne _ => exact hne
  | plus _ _ => exact List.cons_ne_nil _ _
  | minus _ _ => exact List.cons_ne_nil _ _

theorem Numeral.bounds (h : Numeral cs z) : ∀ c ∈ cs, 43 ≤ c.toNat ∧ c.toNat ≤ 57 := by
  have hall : ∀ {ds : List Char}, (∀ d ∈ ds, d.isDigit = true) →
      ∀ d ∈ ds, 43 ≤ d.toNat ∧ d.toNat ≤ 57 := by
    intro ds hdigits d hd
    have hbounds := digit_bounds (hdigits d hd)
    omega
  cases h with
  | bare _ hdigits => exact hall hdigits
  | plus _ hdigits => exact List.forall_mem_cons.mpr ⟨by decide, hall hdigits⟩
  | minus _ hdigits => exact List.forall_mem_cons.mpr ⟨by decide, hall hdigits⟩

theorem Numeral.not_blank (h : Numeral cs z) : ∀ c ∈ cs, isBlank c = false := by
  intro c hc
  have hbounds := h.bounds c hc
  unfold isBlank
  simp only [Bool.or_eq_false_iff, Bool.and_eq_false_iff, decide_eq_false_iff_not]
  omega

/-- Signs and digits are one byte each, and none is the end of a line. -/
theorem Numeral.newline_not_mem (h : Numeral cs z) : 10 ∉ Bytes.ofChars cs := by
  intro hmem
  obtain ⟨c, hc, hbyte⟩ := List.mem_flatMap.mp hmem
  have hbounds := h.bounds c hc
  have hone : String.utf8EncodeChar c = [.ofNat c.toNat] := by
    have hencode := utf8EncodeChar_one (n := c.toNat) (by omega)
    rwa [Char.ofNat_toNat] at hencode
  rw [hone, List.mem_singleton] at hbyte
  have htoNat := congrArg UInt8.toNat hbyte
  rw [toNat_ofNat_byte (by omega)] at htoNat
  change 10 = c.toNat at htoNat
  omega

end Integers

section Trimming

variable {α : Type} {p : α → Bool} {front back : List α} {before body after ps : List Piece}
  {cs : List Char}

theorem dropWhile_append_eq (hfront : ∀ x ∈ front, p x = true) {x : α} (hx : p x = false)
    (hback : back.head? = some x) : (front ++ back).dropWhile p = back := by
  rw [List.dropWhile_append_of_pos hfront]
  cases back with
  | nil => simp at hback
  | cons y back =>
    obtain rfl : y = x := Option.some.inj hback
    exact List.dropWhile_cons_of_neg (Bool.eq_false_iff.mp hx)

/-- Between white space a text is trimmed to itself if there is none at its ends. -/
theorem trimBlank_between (hbefore : ∀ p ∈ before, p.isBlank = true)
    (hafter : ∀ p ∈ after, p.isBlank = true) (hne : body ≠ [])
    (hbody : ∀ p ∈ body, p.isBlank = false) : trimBlank (before ++ body ++ after) = body := by
  have hfirst : (body ++ after).head? = some (body.head hne) := by
    rw [List.head?_append, List.head?_eq_some_head hne, Option.some_or]
  have hlast : body.reverse.head? = some (body.getLast hne) := by
    rw [List.head?_reverse, List.getLast?_eq_some_getLast hne]
  have hafter' : ∀ p ∈ after.reverse, p.isBlank = true :=
    fun p hp => hafter p (List.mem_reverse.mp hp)
  unfold trimBlank
  rw [List.append_assoc, dropWhile_append_eq hbefore (hbody _ (List.head_mem hne)) hfirst,
    List.reverse_append, dropWhile_append_eq hafter' (hbody _ (List.getLast_mem hne)) hlast,
    List.reverse_reverse]

theorem exists_trimBlank (ps : List Piece) : ∃ before after,
    ps = before ++ trimBlank ps ++ after ∧ (∀ p ∈ before, p.isBlank = true) ∧
      ∀ p ∈ after, p.isBlank = true := by
  let rest := ps.dropWhile Piece.isBlank
  refine ⟨ps.takeWhile Piece.isBlank, (rest.reverse.takeWhile Piece.isBlank).reverse, ?_, ?_, ?_⟩
  · have hrest : trimBlank ps ++ (rest.reverse.takeWhile Piece.isBlank).reverse = rest := by
      unfold trimBlank
      rw [← List.reverse_append, List.takeWhile_append_dropWhile, List.reverse_reverse]
    rw [List.append_assoc, hrest, List.takeWhile_append_dropWhile]
  · exact fun p hp => List.mem_takeWhile_imp hp
  · exact fun p hp => List.mem_takeWhile_imp (List.mem_reverse.mp hp)

theorem chars?_eq_some_iff : Piece.chars? ps = some cs ↔ ps = cs.map Piece.char := by
  induction ps generalizing cs with
  | nil => cases cs <;> simp [Piece.chars?]
  | cons p ps ih =>
    cases p with
    | char c =>
      rw [Piece.chars?, Option.map_eq_some_iff]
      constructor
      · rintro ⟨rest, hrest, rfl⟩
        exact congrArg (Piece.char c :: ·) (ih.mp hrest)
      · intro h
        cases cs with
        | nil => simp at h
        | cons d rest =>
          obtain ⟨hd, hrest⟩ := List.cons.inj h
          exact ⟨rest, ih.mpr hrest, congrArg (· :: rest) (Piece.char.inj hd)⟩
    | stray b => cases cs <;> simp [Piece.chars?]

/-- A stray byte is no white space. -/
theorem exists_blank_chars (h : ∀ p ∈ ps, p.isBlank = true) :
    ∃ cs : List Char, ps = cs.map Piece.char ∧ ∀ c ∈ cs, isBlank c = true := by
  induction ps with
  | nil => exact ⟨[], rfl, by simp⟩
  | cons p ps ih =>
    obtain ⟨hp, hps⟩ := List.forall_mem_cons.mp h
    obtain ⟨cs, rfl, hcs⟩ := ih hps
    cases p with
    | char c => exact ⟨c :: cs, rfl, List.forall_mem_cons.mpr ⟨hp, hcs⟩⟩
    | stray b => exact absurd hp Bool.false_ne_true

end Trimming

/-- A line that holds the text of an integer and white space around it. -/
def NumberLine (line : Bytes) (z : Int) : Prop :=
  ∃ before cs after, line = Bytes.ofChars before ++ Bytes.ofChars cs ++ Bytes.ofChars after ∧
    (∀ c ∈ before, isBlank c = true) ∧ (∀ c ∈ after, isBlank c = true) ∧ Numeral cs z

theorem lineNumber?_eq_some_iff {line : Bytes} {n : Int64} :
    lineNumber? line = some n ↔ NumberLine line n.toInt := by
  constructor
  · intro h
    obtain ⟨before, after, hpieces, hbefore, hafter⟩ := exists_trimBlank (pieces line)
    unfold lineNumber? at h
    split at h
    next cs hcs =>
      obtain ⟨front, rfl, hfront⟩ := exists_blank_chars hbefore
      obtain ⟨back, rfl, hback⟩ := exists_blank_chars hafter
      rw [chars?_eq_some_iff.mp hcs, ← List.map_append, ← List.map_append] at hpieces
      refine ⟨front, cs, back, ?_, hfront, hback, readDecimal?_eq_some_iff.mp h⟩
      rw [eq_ofChars_of_pieces hpieces, Bytes.ofChars_append, Bytes.ofChars_append]
    next => simp at h
  · rintro ⟨front, cs, back, rfl, hfront, hback, hcs⟩
    have hpieces : pieces (Bytes.ofChars front ++ Bytes.ofChars cs ++ Bytes.ofChars back) =
        front.map Piece.char ++ cs.map Piece.char ++ back.map Piece.char := by
      rw [← Bytes.ofChars_append, ← Bytes.ofChars_append, pieces_ofChars, List.map_append,
        List.map_append]
    have hblank : ∀ {ds : List Char}, (∀ c ∈ ds, isBlank c = true) →
        ∀ p ∈ ds.map Piece.char, p.isBlank = true := fun h => List.forall_mem_map.mpr h
    have hbody : ∀ p ∈ cs.map Piece.char, p.isBlank = false :=
      List.forall_mem_map.mpr hcs.not_blank
    have hne : cs.map Piece.char ≠ [] := fun hnil => hcs.ne_nil (List.map_eq_nil_iff.mp hnil)
    unfold lineNumber?
    rw [hpieces, trimBlank_between (hblank hfront) (hblank hback) hne hbody,
      chars?_eq_some_iff.mpr rfl]
    exact readDecimal?_eq_some_iff.mpr hcs

/-- A line is read as an integer just if it holds one that 64 bits can hold. -/
theorem toInt_lineNumber?_iff {line : Bytes} {z : Int} :
    (lineNumber? line).map Int64.toInt = some z ↔
      NumberLine line z ∧ -2 ^ 63 ≤ z ∧ z < 2 ^ 63 := by
  rw [Option.map_eq_some_iff]
  constructor
  · rintro ⟨n, hn, rfl⟩
    exact ⟨lineNumber?_eq_some_iff.mp hn, n.le_toInt, n.toInt_lt⟩
  · rintro ⟨hline, hlow, hhigh⟩
    have hz := Int64.toInt_ofInt_of_le hlow hhigh
    exact ⟨Int64.ofInt z, lineNumber?_eq_some_iff.mpr (hz.symm ▸ hline), hz⟩

end Codel
