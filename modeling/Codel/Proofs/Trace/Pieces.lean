import Codel.Proofs.Trace.Reading

namespace Codel.Trace

/-- What a byte string in pieces is cut down to if it is cut between two of them. -/
def joins : List Bytes → List Bytes
  | [] => [[]]
  | p :: ps => [] :: (joins ps).map (p ++ ·)

section Joins

variable {ps qs : List Bytes} {b c : Bytes}

theorem nil_mem_joins (ps : List Bytes) : [] ∈ joins ps := by
  cases ps <;> simp [joins]

theorem mem_joins_cons {p : Bytes} :
    b ∈ joins (p :: ps) ↔ b = [] ∨ ∃ c ∈ joins ps, b = p ++ c := by
  simp [joins, eq_comm]

theorem length_le_of_mem_joins (h : b ∈ joins ps) : b.length ≤ ps.flatten.length := by
  induction ps generalizing b with
  | nil => simp_all [joins]
  | cons p ps ih =>
    rcases mem_joins_cons.mp h with rfl | ⟨c, hc, rfl⟩
    · exact Nat.zero_le _
    · have := ih hc
      simp only [List.flatten_cons, List.length_append]
      omega

theorem mem_joins_append :
    b ∈ joins (ps ++ qs) ↔ b ∈ joins ps ∨ ∃ c ∈ joins qs, b = ps.flatten ++ c := by
  induction ps generalizing b with
  | nil =>
    simp only [joins, List.nil_append, List.mem_singleton, List.flatten_nil, exists_eq_right']
    constructor
    · exact Or.inr
    · rintro (rfl | h)
      · exact nil_mem_joins qs
      · exact h
  | cons p ps ih =>
    rw [List.cons_append, mem_joins_cons, mem_joins_cons, List.flatten_cons, or_assoc]
    refine or_congr_right ?_
    constructor
    · rintro ⟨c, hc, rfl⟩
      rcases ih.mp hc with hc | ⟨e, he, rfl⟩
      · exact Or.inl ⟨c, hc, rfl⟩
      · exact Or.inr ⟨e, he, (List.append_assoc _ _ _).symm⟩
    · rintro (⟨c, hc, rfl⟩ | ⟨e, he, rfl⟩)
      · exact ⟨c, ih.mpr (Or.inl hc), rfl⟩
      · exact ⟨_, ih.mpr (Or.inr ⟨e, he, rfl⟩), List.append_assoc _ _ _⟩

theorem mem_joins_append_of_lt (h : b.length < ps.flatten.length) :
    b ∈ joins (ps ++ qs) ↔ b ∈ joins ps := by
  rw [mem_joins_append]
  refine ⟨fun hb => hb.resolve_right ?_, Or.inl⟩
  rintro ⟨c, _, rfl⟩
  rw [List.length_append] at h
  omega

theorem append_mem_joins_iff : ps.flatten ++ c ∈ joins (ps ++ qs) ↔ c ∈ joins qs := by
  rw [mem_joins_append]
  constructor
  · rintro (h | ⟨e, he, heq⟩)
    · -- Nothing longer than all pieces is a join of some of them.
      have hlength := length_le_of_mem_joins h
      rw [List.length_append] at hlength
      have hc : c = [] := List.length_eq_zero_iff.mp (by omega)
      exact hc ▸ nil_mem_joins qs
    · exact List.append_cancel_left heq ▸ he
  · exact fun h => Or.inr ⟨c, h, rfl⟩

end Joins

/-- What a reader of the pieces `ps` says when its input has been cut down to `b`. -/
def cutFault (ps : List Bytes) (b : Bytes) : ReadFault := if b ∈ joins ps then .ended else .cut

theorem cutFault_append_of_lt {ps : List Bytes} {b : Bytes} (h : b.length < ps.flatten.length)
    (qs : List Bytes) : cutFault (ps ++ qs) b = cutFault ps b := by
  unfold cutFault
  simp only [mem_joins_append_of_lt h]

theorem cutFault_append (ps qs : List Bytes) (c : Bytes) :
    cutFault (ps ++ qs) (ps.flatten ++ c) = cutFault qs c := by
  unfold cutFault
  simp only [append_mem_joins_iff]

/-- Off the front of anything that begins with the pieces the reader takes them all and reads `a`; if
they are cut short it fails, and the fault tells where they are cut. -/
structure Takes {α : Type} (r : Reader α) (ps : List Bytes) (a : α) : Prop where
  reads : Reads r ps.flatten a
  short : ∀ b d, ps.flatten = b ++ d → d ≠ [] → r b = .error (cutFault ps b)

section Combination

variable {α β : Type} {r : Reader α} {f : α → Reader β} {a : α} {b : β} {ps qs : List Bytes}

theorem Takes.pure (a : α) : Takes (Pure.pure a) [] a where
  reads := Reads.pure a
  short c d h hd := by
    have := List.append_eq_nil_iff.mp h.symm
    exact absurd this.2 hd

theorem Takes.bind (h : Takes r ps a) (hf : Takes (f a) qs b) : Takes (r >>= f) (ps ++ qs) b where
  reads := by
    rw [List.flatten_append]
    exact h.reads.bind hf.reads
  short c d heq hd := by
    change Reader.andThen r f c = _
    unfold Reader.andThen
    rw [List.flatten_append] at heq
    rcases Nat.lt_or_ge c.length ps.flatten.length with hlt | hge
    · -- The first reader fails already.
      obtain ⟨e, rfl, hps⟩ : ∃ e, d = e ++ qs.flatten ∧ ps.flatten = c ++ e := by
        rcases List.append_eq_append_iff.mp heq with ⟨e, rfl, _⟩ | ⟨e, hps, rfl⟩
        · rw [List.length_append] at hlt
          omega
        · exact ⟨e, rfl, hps⟩
      have he : e ≠ [] := by
        rintro rfl
        rw [hps, List.append_nil] at hlt
        exact Nat.lt_irrefl _ hlt
      rw [h.short c e hps he, cutFault_append_of_lt hlt]
    · obtain ⟨e, rfl, hqs⟩ : ∃ e, c = ps.flatten ++ e ∧ qs.flatten = e ++ d := by
        rcases List.append_eq_append_iff.mp heq with ⟨e, hc, hqs⟩ | ⟨e, hps, hd'⟩
        · exact ⟨e, hc, hqs⟩
        · have he : e = [] := by
            rw [hps, List.length_append] at hge
            exact List.length_eq_zero_iff.mp (by omega)
          subst he
          exact ⟨[], by simpa using hps.symm, by simpa using hd'.symm⟩
      rw [h.reads e]
      dsimp only
      rw [hf.short e d hqs hd, cutFault_append]

theorem Takes.map (h : Takes r ps a) (k : α → β) : Takes (do return k (← r)) ps (k a) := by
  have hbind := h.bind (f := fun x => Pure.pure (k x)) (Takes.pure (k a))
  rwa [List.append_nil] at hbind

theorem takes_tag (tag : UInt8) : Takes readTag [[tag]] tag where
  reads := reads_tag tag
  short c d heq hd := by
    have hc : c = [] := by
      have hlength := congrArg List.length heq
      have hpos := List.length_pos_iff.mpr hd
      simp only [List.flatten_cons, List.flatten_nil, List.append_nil, List.length_append,
        List.length_singleton] at hlength
      exact List.length_eq_zero_iff.mp (by omega)
    subst hc
    rw [cutFault, if_pos (nil_mem_joins _)]
    rfl

theorem Takes.after_tag {after : UInt8 → Reader α} {tag : UInt8} (h : Takes (after tag) ps a) :
    Takes (do after (← readTag)) ([tag] :: ps) a :=
  (takes_tag tag).bind h

/-- A reader of one piece at most: where it reads `bs` at all, a shorter input has come to its end
before the piece or in the midst of it. -/
def Solid (r : Reader α) : Prop :=
  ∀ bs rest a, r (bs ++ rest) = .ok (a, rest) → ∀ b d, bs = b ++ d → d ≠ [] →
    r b = .error (if b = [] then .ended else .cut)

theorem Solid.takes {bs : Bytes} (hr : Solid r) (h : Reads r bs a) : Takes r [bs] a where
  reads := by
    rw [List.flatten_singleton]
    exact h
  short c d heq hd := by
    rw [List.flatten_singleton] at heq
    have hmem : c ∈ joins [bs] ↔ c = [] := by
      simp [joins, heq, hd]
    rw [hr bs [] a (h []) c d heq hd, cutFault]
    simp only [hmem]

theorem solid_pure (a : α) : Solid (Pure.pure a : Reader α) := by
  intro bs rest a' h b d heq hd
  change Except.ok (a, bs ++ rest) = Except.ok (a', rest) at h
  have hbs : bs = [] := List.append_left_eq_self.mp (Prod.ext_iff.mp (Except.ok.inj h)).2
  rw [hbs] at heq
  exact absurd (List.append_eq_nil_iff.mp heq.symm).2 hd

theorem solid_fail (e : ReadFault) : Solid (Reader.fail e : Reader α) := by
  intro bs rest a h
  cases h

theorem Solid.map (hr : Solid r) (k : α → β) : Solid (do return k (← r) : Reader β) := by
  intro bs rest x h b d heq hd
  change Reader.andThen r (fun y => Pure.pure (k y)) (bs ++ rest) = .ok (x, rest) at h
  change Reader.andThen r (fun y => Pure.pure (k y)) b = _
  unfold Reader.andThen at h ⊢
  cases hread : r (bs ++ rest) with
  | error e => simp [hread] at h
  | ok p =>
    obtain ⟨y, rest'⟩ := p
    rw [hread] at h
    change Except.ok (k y, rest') = Except.ok (x, rest) at h
    have hrest : rest' = rest := (Prod.ext_iff.mp (Except.ok.inj h)).2
    rw [hr bs rest y (hrest ▸ hread) b d heq hd]

theorem solid_bytes (n : Nat) : Solid (readBytes n) := by
  intro bs rest a h b d heq hd
  unfold readBytes at h
  dsimp only at h
  split at h
  next hlength =>
    have hrest : (bs ++ rest).drop n = rest := (Prod.ext_iff.mp (Except.ok.inj h)).2
    have hn := congrArg List.length hrest
    rw [List.length_drop, List.length_append] at hn
    rw [List.length_take, List.length_append] at hlength
    have hpos := List.length_pos_iff.mpr hd
    have hb : ¬ (b.take n).length = n := by
      have := congrArg List.length heq
      rw [List.length_append] at this
      rw [List.length_take]
      omega
    unfold readBytes
    dsimp only
    rw [if_neg hb]
    split <;> rfl
  next => split at h <;> simp at h

theorem solid_nat (width : Nat) : Solid (readNat width) := (solid_bytes width).map _

theorem Solid.ite {c : Prop} [Decidable c] {q : Reader α} (hr : Solid r) (hq : Solid q) :
    Solid (if c then r else q) := by
  split
  · exact hr
  · exact hq

end Combination

section Values

/-- The tag at the front of some bytes, and the bytes after it. -/
def cutTag : Bytes → List Bytes
  | [] => []
  | tag :: rest => [[tag], rest]

/-- The tag and the length of a value whose last `n` bytes are what it holds. -/
def leadPieces (bs : Bytes) (n : Nat) : List Bytes := cutTag (bs.take (bs.length - n))

def intPieces (v : Int64) : List Bytes := cutTag (encodeInt v)

def textPieces (bs : Bytes) : List Bytes := leadPieces (encodeText bs) bs.length ++ [bs]

def stackPieces : Option (List Int64) → List Bytes
  | none => [[0xc0]]
  | some vs =>
    leadPieces (encodeStack (some vs)) (vs.flatMap encodeInt).length ++ vs.flatMap intPieces

theorem leadPieces_eq {bs front body : Bytes} {tag : UInt8} (h : bs = tag :: (front ++ body)) :
    leadPieces bs body.length = [[tag], front] := by
  have htake : bs.take (bs.length - body.length) = tag :: front := by
    have hlength : bs.length - body.length = (tag :: front).length := by
      rw [h]
      simp only [List.length_cons, List.length_append]
      omega
    rw [hlength, h, ← List.cons_append, List.take_left]
  rw [leadPieces, htake, cutTag]

theorem solid_readIntAfter (tag : UInt8) : Solid (readIntAfter tag) := by
  unfold readIntAfter
  exact .ite (solid_pure _) <| .ite (solid_pure _) <|
    .ite ((solid_nat 1).map _) <| .ite ((solid_nat 2).map _) <| .ite ((solid_nat 4).map _) <|
    .ite ((solid_nat 1).map _) <| .ite ((solid_nat 2).map _) <| .ite ((solid_nat 4).map _) <|
    .ite ((solid_nat 8).map _) (solid_fail _)

theorem takes_int (v : Int64) : Takes readInt (intPieces v) v := by
  have hreads := reads_int v
  unfold intPieces
  cases hbytes : encodeInt v with
  | nil =>
    rw [hbytes] at hreads
    cases hreads []
  | cons tag rest =>
    rw [hbytes] at hreads
    have hafter : Reads (readIntAfter tag) rest v := hreads
    exact ((solid_readIntAfter tag).takes hafter).after_tag

theorem solid_readTextLength (tag : UInt8) : Solid (readTextLength tag) := by
  unfold readTextLength
  exact .ite (solid_pure _) <| .ite (solid_pure _) <|
    .ite (solid_nat 1) <| .ite (solid_nat 2) <| .ite (solid_nat 4) (solid_fail _)

theorem takes_text {bs : Bytes} (h : bs.length < 2 ^ 32) : Takes readText (textPieces bs) bs := by
  obtain ⟨tag, front, heq, hlength⟩ := encodeText_eq h
  rw [textPieces, leadPieces_eq heq]
  have hbody := (solid_bytes bs.length).takes (reads_bytes bs)
  exact (((solid_readTextLength tag).takes hlength).bind hbody).after_tag

theorem solid_readListLength (tag : UInt8) : Solid (readListLength tag) := by
  unfold readListLength
  exact .ite (solid_pure _) <| .ite (solid_pure _) <|
    .ite ((solid_nat 2).map _) <| .ite ((solid_nat 4).map _) (solid_fail _)

theorem takes_ints (vs sofar : List Int64) :
    Takes (readInts vs.length sofar) (vs.flatMap intPieces) (sofar.reverse ++ vs) := by
  induction vs generalizing sofar with
  | nil =>
    rw [List.append_nil]
    exact Takes.pure sofar.reverse
  | cons v vs ih =>
    have hrest := ih (v :: sofar)
    rw [List.reverse_cons, List.append_assoc] at hrest
    exact (takes_int v).bind hrest

theorem takes_stack {stack : Option (List Int64)} (h : ∀ vs, stack = some vs → vs.length < 2 ^ 32) :
    Takes readStack (stackPieces stack) stack := by
  cases stack with
  | none => exact (takes_tag 0xc0).bind (Takes.pure none)
  | some vs =>
    obtain ⟨tag, front, heq, hlength⟩ := encodeStack_some_eq (h vs rfl)
    rw [stackPieces, leadPieces_eq heq]
    have hints := (takes_ints vs []).map some
    exact (((solid_readListLength tag).takes hlength).bind hints).after_tag

end Values

section Record

variable {α : Type}

/-- Pieces that spell fields in turn: those of the name of each, then those of a value that it reads
into the record. -/
inductive Spelt : List (Bytes × (α → Reader α)) → α → List Bytes → α → Prop
  | nil (a : α) : Spelt [] a [] a
  | cons {f fs a b c value rest} : f.1.length < 2 ^ 32 → Takes (f.2 a) value b →
      Spelt fs b rest c → Spelt (f :: fs) a (textPieces f.1 ++ (value ++ rest)) c

theorem Spelt.field {β : Type} {name : String} {read : Reader β} {put : α → β → α} {fs a v value}
    {rest : List Bytes} {c : α} (hname : (Bytes.ofString name).length < 2 ^ 32)
    (hv : Takes read value v) (hfs : Spelt fs (put a v) rest c) :
    Spelt (Trace.field name read put :: fs) a
      (textPieces (Bytes.ofString name) ++ (value ++ rest)) c :=
  .cons hname (hv.map (put a)) hfs

theorem Spelt.takes_pairs {layout : Layout α} (hnames : (layout.fields.map Prod.fst).Nodup)
    {fs a ps b} (hfs : fs ⊆ layout.fields) (h : Spelt fs a ps b) :
    Takes (readPairs layout fs.length a) ps b := by
  induction h with
  | nil a => exact Takes.pure a
  | cons hname hv _ ih =>
    obtain ⟨hmem, htail⟩ := List.cons_subset.mp hfs
    refine (takes_text hname).bind ?_
    rw [Layout.find?_name hnames hmem]
    exact hv.bind (ih htail)

theorem Spelt.takes_record {layout : Layout α} (hnames : (layout.fields.map Prod.fst).Nodup)
    (hfew : layout.fields.length < 16) {zero a ps} (h : Spelt layout.fields zero ps a) :
    Takes (readRecord layout zero) ([UInt8.ofNat (0x80 + layout.fields.length)] :: ps) a := by
  obtain ⟨hrange, hlength⟩ := readMapLength_small hfew
  refine (takes_tag _).bind ?_
  rw [if_pos (Or.inr (Or.inl hrange)), hlength]
  exact (Takes.pure _).bind (h.takes_pairs hnames (List.Subset.refl _))

end Record

end Codel.Trace
