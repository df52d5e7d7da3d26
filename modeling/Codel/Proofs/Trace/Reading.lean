import Codel.Trace.Decoding
import Codel.Trace.Encoding
import Mathlib.Data.List.Nodup
import Mathlib.Tactic.Ring

namespace Codel

theorem Bytes.foldl_ofNatBig (width n acc : Nat) :
    (ofNatBig width n).foldl (fun m b => 256 * m + b.toNat) acc =
      256 ^ width * acc + n % 256 ^ width := by
  induction width generalizing acc with
  | zero => simp [ofNatBig, Nat.mod_one]
  | succ width ih =>
    have hdigit : (UInt8.ofNat (n >>> (8 * width))).toNat = n / 256 ^ width % 256 := by
      rw [UInt8.toNat_ofNat', Nat.shiftRight_eq_div_pow, Nat.pow_mul]
    rw [ofNatBig, List.foldl_cons, ih, hdigit, Nat.pow_succ, Nat.mod_mul]
    ring

theorem Bytes.toNatBig_ofNatBig {width n : Nat} (h : n < 256 ^ width) :
    (ofNatBig width n).toNatBig = n := by
  unfold toNatBig
  rw [foldl_ofNatBig, Nat.mul_zero, Nat.zero_add, Nat.mod_eq_of_lt h]

namespace Trace

/-- Off the front of anything that begins with `bs`, the reader takes `bs` and reads `a`. -/
def Reads {α : Type} (r : Reader α) (bs : Bytes) (a : α) : Prop :=
  ∀ rest, r (bs ++ rest) = .ok (a, rest)

section Combination

variable {α β : Type} {r : Reader α} {f : α → Reader β} {a : α} {b : β} {bs cs : Bytes}

theorem Reads.pure (a : α) : Reads (Pure.pure a) [] a := fun _ => rfl

theorem Reads.bind (h : Reads r bs a) (hf : Reads (f a) cs b) : Reads (r >>= f) (bs ++ cs) b := by
  intro rest
  change Reader.andThen r f (bs ++ cs ++ rest) = _
  unfold Reader.andThen
  rw [List.append_assoc, h]
  exact hf rest

theorem Reads.map (h : Reads r bs a) (k : α → β) :
    Reads (do return k (← r)) bs (k a) := by
  have hbind := h.bind (f := fun x => Pure.pure (k x)) (Reads.pure (k a))
  rwa [List.append_nil] at hbind

theorem reads_tag (tag : UInt8) : Reads readTag [tag] tag := fun _ => rfl

/-- What a tag begins is read after the tag. -/
theorem Reads.after_tag {after : UInt8 → Reader α} {tag : UInt8} (h : Reads (after tag) bs a) :
    Reads (do after (← readTag)) (tag :: bs) a :=
  (reads_tag tag).bind h

theorem reads_bytes (bs : Bytes) : Reads (readBytes bs.length) bs bs := by
  intro rest
  simp [readBytes]

theorem reads_nat {width n : Nat} (h : n < 256 ^ width) :
    Reads (readNat width) (Bytes.ofNatBig width n) n := by
  have hbytes := reads_bytes (Bytes.ofNatBig width n)
  rw [Bytes.length_ofNatBig] at hbytes
  have hmap := hbytes.map Bytes.toNatBig
  rwa [Bytes.toNatBig_ofNatBig h] at hmap

end Combination

section Integer

variable {v : Int64}

theorem ofNat_toInt_toNat (h : 0 ≤ v.toInt) : Int64.ofNat v.toInt.toNat = v := by
  rw [← Int64.ofInt_eq_ofNat, Int.toNat_of_nonneg h, Int64.ofInt_toInt]

theorem signed_of_nonneg (bits : Nat) (h : 0 ≤ v.toInt) (hlt : v.toInt < 2 ^ bits) :
    signed (bits + 1) v.toInt.toNat = v := by
  have hnat : v.toInt.toNat < 1 <<< bits := by
    rw [Nat.one_shiftLeft]
    exact (Int.toNat_lt h).mpr (by exact_mod_cast hlt)
  unfold signed
  rw [Nat.add_sub_cancel, if_pos hnat, Int.toNat_of_nonneg h, Int64.ofInt_toInt]

theorem signed_of_neg (bits : Nat) {m : Nat} (hv : (m : Int) - 2 ^ (bits + 1) = v.toInt)
    (hle : 2 ^ bits ≤ m) : signed (bits + 1) m = v := by
  unfold signed
  rw [Nat.add_sub_cancel, Nat.one_shiftLeft, Nat.one_shiftLeft, if_neg (Nat.not_lt.mpr hle)]
  push_cast
  rw [hv, Int64.ofInt_toInt]

/-- Small integers of either sign are their own tag. -/
theorem readIntAfter_small (tag : UInt8) (h : tag.toNat < 0x80 ∨ 0xe0 ≤ tag.toNat) :
    readIntAfter tag = Pure.pure (signed 8 tag.toNat) := by
  have hnil : tag ≠ 0xc0 := by
    rintro rfl
    revert h
    decide
  have hsmall : tag < 0x80 ∨ 0xe0 ≤ tag := by
    rwa [UInt8.lt_iff_toNat_lt, UInt8.le_iff_toNat_le]
  unfold readIntAfter
  rw [if_neg hnil, if_pos hsmall]

theorem reads_small {m : Nat} (h : m < 0x80 ∨ 0xe0 ≤ m ∧ m < 0x100) :
    Reads readInt [UInt8.ofNat m] (signed 8 m) := by
  have hm : (UInt8.ofNat m).toNat = m := UInt8.toNat_ofNat_of_lt (show m < 2 ^ 8 by omega)
  have hafter := readIntAfter_small (UInt8.ofNat m) (by omega)
  rw [hm] at hafter
  exact Reads.after_tag (hafter ▸ Reads.pure _)

theorem reads_tagged {α : Type} {after : UInt8 → Reader α} {k : Nat → α} {tag : UInt8}
    {width n : Nat} (hn : n < 256 ^ width)
    (h : after tag = do return k (← readNat width)) :
    Reads (do after (← readTag)) (tagged tag width n) (k n) :=
  Reads.after_tag (h ▸ (reads_nat hn).map k)

theorem reads_int (v : Int64) : Reads readInt (encodeInt v) v := by
  have hlt := v.toInt_lt
  have hle := v.le_toInt
  have hread : ∀ {bs : Bytes} {u : Int64}, u = v → Reads readInt bs u → Reads readInt bs v := by
    rintro bs u rfl h
    exact h
  -- One case for each form that an integer may take, by sign and then by size.
  unfold encodeInt
  dsimp only
  split
  next hpos =>
    have hnat := ofNat_toInt_toNat hpos
    split
    next => exact hread (signed_of_nonneg 7 hpos (by omega)) (reads_small (by omega))
    split
    next => exact hread hnat (reads_tagged (by omega) rfl)
    split
    next => exact hread hnat (reads_tagged (by omega) rfl)
    split
    next => exact hread hnat (reads_tagged (by omega) rfl)
    next => exact hread (signed_of_nonneg 63 hpos hlt) (reads_tagged (by omega) rfl)
  next hneg =>
    split
    next => exact hread (signed_of_neg 7 (by omega) (by omega)) (reads_small (by omega))
    split
    next =>
      exact hread (signed_of_neg 7 (by omega) (by omega)) (reads_tagged (by omega) rfl)
    split
    next =>
      exact hread (signed_of_neg 15 (by omega) (by omega)) (reads_tagged (by omega) rfl)
    split
    next =>
      exact hread (signed_of_neg 31 (by omega) (by omega)) (reads_tagged (by omega) rfl)
    next =>
      exact hread (signed_of_neg 63 (by omega) (by omega)) (reads_tagged (by omega) rfl)

end Integer

section Sequence

variable {bs : Bytes}

/-- A length that is held in its tag, the tags from `lo` up to `hi` being set aside for it. -/
theorem tag_of_small (lo hi n : Nat) (h : lo + n < hi) (hhi : hi ≤ 0xc0) :
    (UInt8.ofNat (lo + n)).toNat = lo + n ∧ UInt8.ofNat (lo + n) ≠ 0xc0 ∧
      UInt8.ofNat lo ≤ UInt8.ofNat (lo + n) ∧ UInt8.ofNat (lo + n) < UInt8.ofNat hi := by
  have htoNat : ∀ {m : Nat}, m ≤ hi → (UInt8.ofNat m).toNat = m := by
    intro m hm
    exact UInt8.toNat_ofNat_of_lt (show m < 2 ^ 8 by omega)
  have hn := htoNat (Nat.le_of_lt h)
  refine ⟨hn, ?_, ?_, ?_⟩
  · intro heq
    have : lo + n = 0xc0 := hn.symm.trans (congrArg UInt8.toNat heq)
    omega
  · rw [UInt8.le_iff_toNat_le, hn, htoNat (by omega)]
    omega
  · rw [UInt8.lt_iff_toNat_lt, hn, htoNat (Nat.le_refl hi)]
    exact h

theorem readTextLength_small {n : Nat} (h : n < 32) :
    readTextLength (UInt8.ofNat (0xa0 + n)) = Pure.pure n := by
  obtain ⟨hn, hnil, hrange⟩ := tag_of_small 0xa0 0xc0 n (by omega) (by omega)
  change 0xa0 ≤ _ ∧ _ < 0xc0 at hrange
  unfold readTextLength
  rw [if_neg hnil, if_pos hrange, hn, Nat.add_sub_cancel_left]

/-- A text begins with a tag, after which its length is read. -/
theorem encodeText_eq (h : bs.length < 2 ^ 32) : ∃ tag front,
    encodeText bs = tag :: (front ++ bs) ∧ Reads (readTextLength tag) front bs.length := by
  unfold encodeText
  dsimp only
  split
  next hn => exact ⟨_, [], rfl, readTextLength_small hn ▸ Reads.pure _⟩
  split
  next => exact ⟨0xd9, _, rfl, reads_nat (by omega)⟩
  split
  next => exact ⟨0xda, _, rfl, reads_nat (by omega)⟩
  next => exact ⟨0xdb, _, rfl, reads_nat (by omega)⟩

theorem reads_text (h : bs.length < 2 ^ 32) : Reads readText (encodeText bs) bs := by
  obtain ⟨tag, front, heq, hlength⟩ := encodeText_eq h
  rw [heq]
  exact Reads.after_tag (hlength.bind (reads_bytes bs))

theorem readListLength_small {n : Nat} (h : n < 16) :
    readListLength (UInt8.ofNat (0x90 + n)) = Pure.pure (some n) := by
  obtain ⟨hn, hnil, hrange⟩ := tag_of_small 0x90 0xa0 n (by omega) (by omega)
  change 0x90 ≤ _ ∧ _ < 0xa0 at hrange
  unfold readListLength
  rw [if_neg hnil, if_pos hrange, hn, Nat.add_sub_cancel_left]

theorem encodeStack_some_eq {vs : List Int64} (h : vs.length < 2 ^ 32) : ∃ tag front,
    encodeStack (some vs) = tag :: (front ++ vs.flatMap encodeInt) ∧
      Reads (readListLength tag) front (some vs.length) := by
  unfold encodeStack
  dsimp only
  split
  next hn => exact ⟨_, [], rfl, readListLength_small hn ▸ Reads.pure _⟩
  split
  next => exact ⟨0xdc, _, rfl, (reads_nat (by omega)).map some⟩
  next => exact ⟨0xdd, _, rfl, (reads_nat (by omega)).map some⟩

theorem reads_ints (vs sofar : List Int64) :
    Reads (readInts vs.length sofar) (vs.flatMap encodeInt) (sofar.reverse ++ vs) := by
  induction vs generalizing sofar with
  | nil =>
    intro rest
    simp [readInts, Reader.done]
  | cons v vs ih =>
    have hrest := ih (v :: sofar)
    rw [List.reverse_cons, List.append_assoc] at hrest
    exact (reads_int v).bind hrest

theorem reads_stack {stack : Option (List Int64)} (h : ∀ vs, stack = some vs → vs.length < 2 ^ 32) :
    Reads readStack (encodeStack stack) stack := by
  cases stack with
  | none => exact fun _ => rfl
  | some vs =>
    obtain ⟨tag, front, heq, hlength⟩ := encodeStack_some_eq (h vs rfl)
    rw [heq]
    exact Reads.after_tag (hlength.bind ((reads_ints vs []).map some))

end Sequence

section Record

variable {α : Type}

/-- Bytes that spell fields in turn: the name of each, then a value that it reads into the record. -/
inductive Spells : List (Bytes × (α → Reader α)) → α → Bytes → α → Prop
  | nil (a : α) : Spells [] a [] a
  | cons {f fs a b c value rest} : f.1.length < 2 ^ 32 → Reads (f.2 a) value b →
      Spells fs b rest c → Spells (f :: fs) a (encodeText f.1 ++ (value ++ rest)) c

theorem Spells.field {β : Type} {name : String} {read : Reader β} {put : α → β → α} {fs a v value}
    {rest : Bytes} {c : α} (hname : (Bytes.ofString name).length < 2 ^ 32)
    (hv : Reads read value v) (hfs : Spells fs (put a v) rest c) :
    Spells (Trace.field name read put :: fs) a (encodeKey name ++ (value ++ rest)) c :=
  .cons hname (hv.map (put a)) hfs

/-- Names tell fields apart, so a name is looked up to the field that bears it. -/
theorem Layout.find?_name {layout : Layout α} (hnames : (layout.fields.map Prod.fst).Nodup)
    {f : Bytes × (α → Reader α)} (hf : f ∈ layout.fields) :
    (layout.fields.find? fun h => h.1 = f.1) = some f := by
  cases hfind : layout.fields.find? fun h => h.1 = f.1 with
  | none => simpa using List.find?_eq_none.mp hfind f hf
  | some h =>
    have hname : h.1 = f.1 := by simpa using List.find?_some hfind
    exact congrArg some (List.inj_on_of_nodup_map hnames (List.mem_of_find?_eq_some hfind) hf hname)

theorem Spells.reads_pairs {layout : Layout α} (hnames : (layout.fields.map Prod.fst).Nodup)
    {fs a bs b} (hfs : fs ⊆ layout.fields) (h : Spells fs a bs b) :
    Reads (readPairs layout fs.length a) bs b := by
  induction h with
  | nil a => exact fun _ => rfl
  | cons hname hv _ ih =>
    obtain ⟨hmem, htail⟩ := List.cons_subset.mp hfs
    refine (reads_text hname).bind ?_
    rw [Layout.find?_name hnames hmem]
    exact hv.bind (ih htail)

/-- A record of fewer than sixteen fields holds their number in its tag. -/
theorem readMapLength_small {n : Nat} (h : n < 16) :
    (0x80 ≤ UInt8.ofNat (0x80 + n) ∧ UInt8.ofNat (0x80 + n) < 0x90) ∧
      readMapLength (UInt8.ofNat (0x80 + n)) = Pure.pure (some n) := by
  obtain ⟨hn, hnil, hrange⟩ := tag_of_small 0x80 0x90 n (by omega) (by omega)
  change 0x80 ≤ _ ∧ _ < 0x90 at hrange
  refine ⟨hrange, ?_⟩
  unfold readMapLength
  rw [if_neg hnil, if_pos hrange, hn, Nat.add_sub_cancel_left]

theorem Spells.reads_record {layout : Layout α} (hnames : (layout.fields.map Prod.fst).Nodup)
    (hfew : layout.fields.length < 16) {zero a bs} (h : Spells layout.fields zero bs a) :
    Reads (readRecord layout zero) (UInt8.ofNat (0x80 + layout.fields.length) :: bs) a := by
  obtain ⟨hrange, hlength⟩ := readMapLength_small hfew
  refine (reads_tag _).bind ?_
  rw [if_pos (Or.inr (Or.inl hrange)), hlength]
  exact (Reads.pure _).bind (h.reads_pairs hnames (List.Subset.refl _))

end Record

end Trace

end Codel
