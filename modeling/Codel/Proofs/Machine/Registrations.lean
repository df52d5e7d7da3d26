import Codel.Machine.InstructionSet
import Codel.Proofs.Text.Scalar
import Mathlib.Data.List.Induction
import Mathlib.Data.List.Nodup
import Mathlib.Data.String.Basic

namespace Codel

/-- A call that changes a handler table. -/
inductive Change (ε : Type) where
  | register (op : OpCode) (e : ε)
  | unregister (op : OpCode)
  | clearDefaults

/-- The call takes away the executor of the operation, whatever it is. -/
def Change.Removes {ε : Type} (op : OpCode) : Change ε → Prop
  | .register _ _ => False
  | .unregister op' => op' = op
  | .clearDefaults => op ∈ InstructionSet.defaults.map Prod.fst

namespace HandlerTable

variable {ε : Type} {s : HandlerTable ε} {op : OpCode} {e e' : ε} {c : Change ε}
  {log : List (Change ε)} {k k' : Nat}

/-- The operations that have an executor. -/
def operations (s : HandlerTable ε) : List OpCode := s.handlers.map Prod.fst

/-- The table after a call; a registration that is refused leaves it as it is. -/
def change (s : HandlerTable ε) : Change ε → HandlerTable ε
  | .register op e => (s.register? op e).getD s
  | .unregister op => s.unregister op
  | .clearDefaults => s.clearDefaults

def changes (s : HandlerTable ε) (calls : List (Change ε)) : HandlerTable ε :=
  calls.foldl change s

/-- What calls make of a table without executors. -/
def after (log : List (Change ε)) : HandlerTable ε := changes ⟨[]⟩ log

section Lookup

theorem get?_eq_none_iff : s.get? op = none ↔ op ∉ s.operations := by
  unfold get? operations
  rw [Option.map_eq_none_iff, List.find?_eq_none, List.mem_map]
  constructor
  · rintro h ⟨entry, hmem, hop⟩
    exact h entry hmem (decide_eq_true hop)
  · intro h entry hmem hop
    exact h ⟨entry, hmem, of_decide_eq_true hop⟩

theorem mem_operations_iff : op ∈ s.operations ↔ ∃ e, s.get? op = some e := by
  rw [← Option.ne_none_iff_exists', Ne, get?_eq_none_iff, not_not]

theorem register?_of_free (h : s.get? op = none) (e : ε) :
    s.register? op e = some ⟨s.handlers ++ [(op, e)]⟩ := by
  have hfree : s.contains op = false := by rw [contains, h, Option.isSome_none]
  rw [register?, hfree]
  rfl

theorem register?_of_held (h : s.get? op = some e') (e : ε) : s.register? op e = none := by
  have hheld : s.contains op = true := by rw [contains, h, Option.isSome_some]
  rw [register?, hheld]
  rfl

theorem register?_eq_none_iff : s.register? op e = none ↔ op ∈ s.operations := by
  rw [mem_operations_iff]
  cases h : s.get? op with
  | none => simp [register?_of_free h]
  | some held => simp [register?_of_held h]

theorem change_register_of_free (h : s.get? op = none) (e : ε) :
    s.change (.register op e) = ⟨s.handlers ++ [(op, e)]⟩ := by
  change (s.register? op e).getD s = _
  rw [register?_of_free h, Option.getD_some]

theorem change_register_of_refused (h : s.register? op e = none) :
    s.change (.register op e) = s := by
  change (s.register? op e).getD s = s
  rw [h, Option.getD_none]

theorem get?_added (h : s.get? op = none) (e : ε) (op' : OpCode) :
    (⟨s.handlers ++ [(op, e)]⟩ : HandlerTable ε).get? op' =
      if op' = op then some e else s.get? op' := by
  unfold get? at h ⊢
  rw [List.find?_append]
  split
  next hop =>
    rw [hop, Option.map_eq_none_iff.mp h]
    simp
  next hop =>
    have hlast : [(op, e)].find? (fun entry => decide (entry.1 = op')) = none := by
      simpa using Ne.symm hop
    rw [hlast, Option.or_none]

/-- A registration gives the operation its executor unless it has one. -/
theorem get?_register (s : HandlerTable ε) (op op' : OpCode) (e : ε) :
    (s.change (.register op e)).get? op' =
      if op' = op then some ((s.get? op).getD e) else s.get? op' := by
  cases h : s.get? op with
  | none => rw [change_register_of_free h, get?_added h, Option.getD_none]
  | some held =>
    rw [change_register_of_refused (register?_of_held h e), Option.getD_some]
    split
    next hop => rw [hop, h]
    next => rfl

theorem get?_unregister (s : HandlerTable ε) (op op' : OpCode) :
    (s.unregister op).get? op' = if op' = op then none else s.get? op' := by
  split
  next hop =>
    rw [get?_eq_none_iff, hop]
    simp [operations, unregister]
  next hop =>
    have hkept : ∀ entry : OpCode × ε,
        decide (decide (entry.1 ≠ op) = true ∧ decide (entry.1 = op') = true) =
          decide (entry.1 = op') := by
      intro entry
      rw [decide_eq_decide, decide_eq_true_iff, decide_eq_true_iff]
      exact and_iff_right_of_imp fun h => h ▸ hop
    unfold get? unregister
    rw [List.find?_filter]
    simp only [hkept]

theorem get?_clearDefaults (s : HandlerTable ε) (op : OpCode) :
    s.clearDefaults.get? op =
      if op ∈ InstructionSet.defaults.map Prod.fst then none else s.get? op := by
  unfold clearDefaults
  generalize InstructionSet.defaults = entries
  induction entries generalizing s with
  | nil => rfl
  | cons entry entries ih =>
    rw [List.foldl_cons, ih, get?_unregister, List.map_cons]
    simp only [List.mem_cons]
    by_cases hop : op = entry.1
    · rw [if_pos hop, if_pos (Or.inl hop), ite_self]
    · simp only [hop, false_or, if_false]

/-- What an operation has after a call it had before and the call does not remove it, or it had
nothing and the call registers that. -/
theorem get?_change_eq_some_iff (s : HandlerTable ε) (c : Change ε) :
    (s.change c).get? op = some e ↔
      s.get? op = some e ∧ ¬ c.Removes op ∨ s.get? op = none ∧ c = .register op e := by
  cases c with
  | register op' e' =>
    rw [get?_register]
    by_cases hop : op = op'
    · subst hop
      cases h : s.get? op <;> simp [Change.Removes]
    · simp [Change.Removes, hop, Ne.symm hop]
  | unregister op' =>
    change (s.unregister op').get? op = _ ↔ _
    rw [get?_unregister]
    by_cases hop : op = op'
    · simp [Change.Removes, hop]
    · simp [Change.Removes, hop, Ne.symm hop]
  | clearDefaults =>
    change s.clearDefaults.get? op = _ ↔ _
    rw [get?_clearDefaults]
    by_cases hop : op ∈ InstructionSet.defaults.map Prod.fst
    · rw [if_pos hop]
      simp [Change.Removes, -List.mem_map, hop]
    · rw [if_neg hop]
      simp [Change.Removes, -List.mem_map, hop]

end Lookup

section Standing

/-- Of calls on a table without executors the one at `k` has registered the executor for an operation
that had none, and no later one removes the operation. -/
structure Stands (log : List (Change ε)) (op : OpCode) (e : ε) (k : Nat) : Prop where
  called : log[k]? = some (.register op e)
  accepted : ((after (log.take k)).register? op e).isSome = true
  kept : ∀ c ∈ log.drop (k + 1), ¬ c.Removes op

/-- A registration of the operation stands. -/
def Present (log : List (Change ε)) (op : OpCode) : Prop := ∃ e k, Stands log op e k

theorem after_concat (log : List (Change ε)) (c : Change ε) :
    after (log ++ [c]) = (after log).change c :=
  List.foldl_concat ..

theorem Stands.lt (h : Stands log op e k) : k < log.length :=
  (List.getElem?_eq_some_iff.mp h.called).1

theorem stands_concat_of_lt (hk : k < log.length) :
    Stands (log ++ [c]) op e k ↔ Stands log op e k ∧ ¬ c.Removes op := by
  have hcalled : (log ++ [c])[k]? = log[k]? := List.getElem?_append_left hk
  have hbefore : (log ++ [c]).take k = log.take k := List.take_append_of_le_length hk.le
  have hafter : (log ++ [c]).drop (k + 1) = log.drop (k + 1) ++ [c] :=
    List.drop_append_of_le_length hk
  constructor
  · intro h
    have hkept := h.kept
    rw [hafter, List.forall_mem_append, List.forall_mem_singleton] at hkept
    exact ⟨⟨hcalled ▸ h.called, hbefore ▸ h.accepted, hkept.1⟩, hkept.2⟩
  · rintro ⟨h, hc⟩
    refine ⟨hcalled ▸ h.called, hbefore ▸ h.accepted, ?_⟩
    rw [hafter, List.forall_mem_append, List.forall_mem_singleton]
    exact ⟨h.kept, hc⟩

theorem stands_concat_last : Stands (log ++ [c]) op e log.length ↔
    (after log).get? op = none ∧ c = .register op e := by
  have hcalled : (log ++ [c])[log.length]? = some c := List.getElem?_concat_length
  have hbefore : (log ++ [c]).take log.length = log := List.take_left
  have hafter : (log ++ [c]).drop (log.length + 1) = [] := List.drop_eq_nil_of_le (by simp)
  constructor
  · rintro ⟨hregister, haccepted, -⟩
    rw [hcalled, Option.some.injEq] at hregister
    rw [hbefore] at haccepted
    refine ⟨?_, hregister⟩
    cases hheld : (after log).get? op with
    | none => rfl
    | some held => simp [register?_of_held hheld] at haccepted
  · rintro ⟨hfree, rfl⟩
    refine ⟨hcalled, ?_, ?_⟩
    · rw [hbefore, register?_of_free hfree, Option.isSome_some]
    · simp [hafter]

theorem exists_stands_concat_iff : (∃ k, Stands (log ++ [c]) op e k) ↔
    (∃ k, Stands log op e k) ∧ ¬ c.Removes op ∨
      (after log).get? op = none ∧ c = .register op e := by
  constructor
  · rintro ⟨k, h⟩
    have hle : k < log.length + 1 := by simpa using h.lt
    rcases Nat.lt_succ_iff_lt_or_eq.mp hle with hk | rfl
    · obtain ⟨hstands, hc⟩ := (stands_concat_of_lt hk).mp h
      exact Or.inl ⟨⟨k, hstands⟩, hc⟩
    · exact Or.inr (stands_concat_last.mp h)
  · rintro (⟨⟨k, h⟩, hc⟩ | h)
    · exact ⟨k, (stands_concat_of_lt h.lt).mpr ⟨h, hc⟩⟩
    · exact ⟨log.length, stands_concat_last.mpr h⟩

/-- An operation has the executor of the registration that stands. -/
theorem get?_after_eq_some_iff (log : List (Change ε)) :
    (after log).get? op = some e ↔ ∃ k, Stands log op e k := by
  -- By the last call: the table and the log are changed by it alike, step for step.
  induction log using List.reverseRecOn with
  | nil =>
    have hnone : ¬ ∃ k, Stands ([] : List (Change ε)) op e k := by
      rintro ⟨k, h⟩
      exact absurd h.lt (Nat.not_lt_zero k)
    simp [hnone, after, changes, get?]
  | append_singleton log c ih =>
    rw [after_concat, get?_change_eq_some_iff, ih, exists_stands_concat_iff]

theorem present_iff (log : List (Change ε)) (op : OpCode) :
    Present log op ↔ op ∈ (after log).operations := by
  rw [mem_operations_iff]
  exact exists_congr fun _ => (get?_after_eq_some_iff log).symm

theorem Stands.take (h : Stands log op e k) {n : Nat} (hn : k < n) : Stands (log.take n) op e k := by
  refine ⟨?_, ?_, ?_⟩
  · rw [List.getElem?_take_of_lt hn]
    exact h.called
  · rw [List.take_take, Nat.min_eq_left hn.le]
    exact h.accepted
  · intro c hc
    rw [List.drop_take] at hc
    exact h.kept c (List.mem_of_mem_take hc)

/-- While a registration stands no other one of the operation is accepted. -/
theorem Stands.not_lt (h : Stands log op e k) (h' : Stands log op e' k') : ¬ k < k' := by
  intro hlt
  have hheld := (get?_after_eq_some_iff _).mpr ⟨k, h.take hlt⟩
  have haccepted := h'.accepted
  rw [register?_of_held hheld] at haccepted
  simp at haccepted

theorem Stands.place_unique (h : Stands log op e k) (h' : Stands log op e' k') : k' = k := by
  have hle := h.not_lt h'
  have hge := h'.not_lt h
  omega

end Standing

section Opening

/-- The calls that register the executors of a table one after the other. -/
def registrations (s : HandlerTable ε) : List (Change ε) :=
  s.handlers.map fun entry => .register entry.1 entry.2

/-- No operation has two executors. -/
def Distinct (s : HandlerTable ε) : Prop := s.operations.Nodup

theorem changes_register_all {entries : List (OpCode × ε)}
    (hdistinct : (entries.map Prod.fst).Nodup)
    (hfree : ∀ op ∈ entries.map Prod.fst, s.get? op = none) :
    s.changes (entries.map fun entry => .register entry.1 entry.2) =
      ⟨s.handlers ++ entries⟩ := by
  induction entries generalizing s with
  | nil => simp [changes]
  | cons entry entries ih =>
    obtain ⟨hfirst, hrest⟩ := List.nodup_cons.mp hdistinct
    obtain ⟨hfreeFirst, hfreeRest⟩ := List.forall_mem_cons.mp hfree
    have hlater : ∀ op ∈ entries.map Prod.fst,
        (⟨s.handlers ++ [entry]⟩ : HandlerTable ε).get? op = none := by
      intro op hop
      rw [get?_added hfreeFirst, if_neg (ne_of_mem_of_not_mem hop hfirst)]
      exact hfreeRest op hop
    have hmade := ih hrest hlater
    rw [List.append_assoc, List.singleton_append] at hmade
    rw [List.map_cons, changes, List.foldl_cons, change_register_of_free hfreeFirst]
    exact hmade

theorem after_registrations (h : s.Distinct) : after s.registrations = s :=
  changes_register_all h fun _ _ => rfl

theorem after_registrations_append (h : s.Distinct) (calls : List (Change ε)) :
    after (s.registrations ++ calls) = s.changes calls := by
  have hopening := after_registrations h
  unfold after changes at hopening ⊢
  rw [List.foldl_append, hopening]

theorem nodup_defaults : (InstructionSet.defaults.map Prod.fst).Nodup := by decide

theorem distinct_standard (usual : Executor → ε) : (standard usual).Distinct := by
  have hkeys : (standard usual).operations = InstructionSet.defaults.map Prod.fst := List.map_map
  unfold Distinct
  rw [hkeys]
  exact nodup_defaults

theorem Distinct.added (h : s.Distinct) (hop : s.get? op = none) (e : ε) :
    Distinct ⟨s.handlers ++ [(op, e)]⟩ := by
  have hnew := h.concat (get?_eq_none_iff.mp hop)
  rw [List.concat_eq_append] at hnew
  simpa [Distinct, operations] using hnew

theorem Distinct.unregister (h : s.Distinct) (op : OpCode) : (s.unregister op).Distinct :=
  h.sublist (List.filter_sublist.map Prod.fst)

theorem Distinct.clearDefaults (h : s.Distinct) : s.clearDefaults.Distinct := by
  unfold HandlerTable.clearDefaults
  generalize InstructionSet.defaults = entries
  induction entries generalizing s with
  | nil => exact h
  | cons entry entries ih => exact ih (h.unregister entry.1)

theorem Distinct.change (h : s.Distinct) (c : Change ε) : (s.change c).Distinct := by
  cases c with
  | register op e =>
    cases hop : s.get? op with
    | none =>
      rw [change_register_of_free hop]
      exact h.added hop e
    | some held => rwa [change_register_of_refused (register?_of_held hop e)]
  | unregister op => exact h.unregister op
  | clearDefaults => exact h.clearDefaults

theorem Distinct.changes (h : s.Distinct) (calls : List (Change ε)) : (s.changes calls).Distinct := by
  induction calls generalizing s with
  | nil => exact h
  | cons c calls ih => exact ih (h.change c)

end Opening

section Names

/-- A table lists its operations in increasing order of the bytes of their names. -/
theorem exists_names_eq (h : s.Distinct) : ∃ ops : List OpCode, ops.Perm s.operations ∧
    ops.Pairwise (fun a b => Bytes.ofString a.name < Bytes.ofString b.name) ∧
    s.names = ",".intercalate (ops.map OpCode.name) := by
  -- Sorted are the names, as strings; their bytes come in only when two of them are compared.
  let sorted := (s.handlers.map fun entry => entry.1.name).mergeSort fun a b => a ≤ b
  have hperm : sorted.Perm (s.operations.map OpCode.name) := by
    rw [operations, List.map_map]
    exact List.mergeSort_perm _ _
  have hnodup : sorted.Nodup := by
    have hinjective : Function.Injective OpCode.name := by
      rintro ⟨a⟩ ⟨b⟩ rfl
      rfl
    exact hperm.nodup_iff.mpr (h.map hinjective)
  have hle : sorted.Pairwise (· ≤ ·) := by
    have hsorted : sorted.Pairwise fun a b => decide (a ≤ b) = true :=
      List.pairwise_mergeSort (fun a b c => by simpa using le_trans)
        (fun a b => by simpa using le_total a b) _
    simpa using hsorted
  have hname : (sorted.map OpCode.mk).map OpCode.name = sorted := by
    rw [List.map_map]
    exact List.map_id sorted
  refine ⟨sorted.map OpCode.mk, ?_, ?_, ?_⟩
  · have hback := hperm.map OpCode.mk
    rw [List.map_map] at hback
    exact hback.trans (List.map_id _ ▸ .refl _)
  · rw [List.pairwise_map]
    refine (hle.and hnodup).imp ?_
    rintro a b ⟨hab, hne⟩
    exact ofString_lt_ofString (lt_of_le_of_ne hab hne)
  · rw [hname]
    rfl

theorem names_congr {ε' : Type} {t : HandlerTable ε'} (hs : s.Distinct) (ht : t.Distinct)
    (h : ∀ op, op ∈ s.operations ↔ op ∈ t.operations) : s.names = t.names := by
  obtain ⟨ops, hperm, hsorted, hnames⟩ := exists_names_eq hs
  obtain ⟨ops', hperm', hsorted', hnames'⟩ := exists_names_eq ht
  have hsame : s.operations.Perm t.operations := (List.perm_ext_iff_of_nodup hs ht).mpr h
  have heq : ops = ops' := by
    refine List.Perm.eq_of_pairwise ?_ hsorted hsorted' ((hperm.trans hsame).trans hperm'.symm)
    intro a b _ _ hab hba
    exact absurd hba (List.lt_asymm hab)
  rw [hnames, hnames', heq]

end Names

/-- For executors of any kind the usual ones are found among: the usual table is what its
registrations make of an empty one. Registering fails just for an operation of which a registration
stands, these counted in, and changes nothing then. An operation has the executor of the one
registration of it that stands, or does nothing. Clearing removes the seventeen usual operations,
whatever their executors, and no other. The listing is in strictly increasing byte order and is the
same for tables that have the same operations. -/
theorem table_is_a_finite_map (usual : Executor → ε) (calls : List (Change ε)) :
    let log := (standard usual).registrations ++ calls
    let s := (standard usual).changes calls
    after log = s ∧
    (∀ op e, (s.register? op e = none ↔ Present log op) ∧
      (s.register? op e = none → s.change (.register op e) = s)) ∧
    (∀ op, (∀ e k, Stands log op e k →
        s.getD op (usual .noop) = e ∧ ∀ e' k', Stands log op e' k' → k' = k) ∧
      (¬ Present log op → s.getD op (usual .noop) = usual .noop)) ∧
    ((InstructionSet.defaults.map Prod.fst).Nodup ∧ InstructionSet.defaults.length = 17 ∧
      ∀ op, s.clearDefaults.get? op =
        if op ∈ InstructionSet.defaults.map Prod.fst then none else s.get? op) ∧
    (∃ ops : List OpCode, (∀ op, op ∈ ops ↔ Present log op) ∧
      ops.Pairwise (fun a b => Bytes.ofString a.name < Bytes.ofString b.name) ∧
      s.names = ",".intercalate (ops.map OpCode.name)) ∧
    ∀ (ε' : Type) (usual' : Executor → ε') (calls' : List (Change ε')),
      (∀ op, Present log op ↔ Present ((standard usual').registrations ++ calls') op) →
        s.names = ((standard usual').changes calls').names := by
  intro log s
  have hlog : after log = s := after_registrations_append (distinct_standard usual) calls
  have hdistinct : s.Distinct := (distinct_standard usual).changes calls
  have hpresent (op : OpCode) : Present log op ↔ op ∈ s.operations := hlog ▸ present_iff log op
  refine ⟨hlog, fun op e => ⟨?_, change_register_of_refused⟩, fun op => ⟨?_, ?_⟩,
    ⟨nodup_defaults, rfl, get?_clearDefaults s⟩, ?_, ?_⟩
  · rw [hpresent]
    exact register?_eq_none_iff
  · intro e k hstands
    have hheld : s.get? op = some e := hlog ▸ (get?_after_eq_some_iff log).mpr ⟨k, hstands⟩
    refine ⟨?_, fun e' k' => hstands.place_unique⟩
    rw [getD, hheld, Option.getD_some]
  · intro habsent
    have hfree : s.get? op = none := get?_eq_none_iff.mpr (mt (hpresent op).mpr habsent)
    rw [getD, hfree, Option.getD_none]
  · obtain ⟨ops, hperm, hsorted, hnames⟩ := exists_names_eq hdistinct
    exact ⟨ops, fun op => hperm.mem_iff.trans (hpresent op).symm, hsorted, hnames⟩
  · intro ε' usual' calls' hsame
    have hlog' := after_registrations_append (distinct_standard usual') calls'
    refine names_congr hdistinct ((distinct_standard usual').changes calls') fun op => ?_
    rw [← hpresent, hsame, present_iff, hlog']

/-- An operation is refused and registered anew, another one is added, and of the usual ones that were
cleared one comes back with another executor. -/
theorem table_is_a_finite_map_cleared :
    let s : InstructionSet := InstructionSet.standard.changes [.register .add .noop,
      .unregister .add, .register .add .pop, .register ⟨"é"⟩ .push, .clearDefaults,
      .register .push .pop]
    s.register? .push .push = none ∧ s.executor .push = .pop ∧ s.executor .add = .noop ∧
      s.names = "push,é" := by
  intro s
  let calls : List (Change Executor) := [.register .add .noop, .unregister .add,
    .register .add .pop, .register ⟨"é"⟩ .push, .clearDefaults]
  obtain ⟨-, hregister, hexecutor, -⟩ := table_is_a_finite_map id (calls ++ [.register .push .pop])
  have hpush : Stands ((standard id).registrations ++ (calls ++ [.register .push .pop]))
      .push .pop ((standard id).registrations ++ calls).length := by
    have hbefore := after_registrations_append (distinct_standard id) calls
    rw [← List.append_assoc, stands_concat_last, hbefore]
    exact ⟨by decide, rfl⟩
  refine ⟨(hregister _ _).1.mpr ⟨_, _, hpush⟩, ((hexecutor .push).1 _ _ hpush).1,
    (hexecutor .add).2 ?_, ?_⟩
  · intro hpresent
    have hrefused := (hregister .add .noop).1.mpr hpresent
    exact absurd hrefused (by decide)
  · have hs : s = ⟨[(⟨"é"⟩, .push), (.push, .pop)]⟩ := by decide
    have horder : ¬ "é" ≤ "push" := by decide
    rw [hs]
    simp [names, OpCode.push, List.mergeSort, List.MergeSort.Internal.splitInTwo, horder]

end HandlerTable

end Codel
