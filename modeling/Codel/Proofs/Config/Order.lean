import Codel.Config.Basic
import Mathlib.Data.List.Basic

namespace Codel

/-- What refusals are told apart by without reading their messages. -/
inductive Sentinel where
  | codelSize
  | stepLimit
  | imageLoad
  | emptyProgram
  | config
deriving DecidableEq, Repr

def Refusal.sentinel? : Refusal → Option Sentinel
  | codelSize _ => some .codelSize
  | stepLimit _ => some .stepLimit
  | noCodels => some .emptyProgram
  | unevenRow _ _ _ => none
  | smallPicture _ _ _ => some .emptyProgram
  | unstorable _ _ => none
  | inFile _ cause => cause.sentinel?
  | notOpened _ _ => some .imageLoad
  | notDecoded _ _ => some .imageLoad

def ConfigFault.sentinel? {E : Type} : ConfigFault E → Option Sentinel
  | limits cause => cause.sentinel?
  | _ => some .config

namespace Config

variable {V E α : Type} {co : Coercions V E} {c c' : Config} {k : String} {v : V}
  {e : ConfigFault E} {fs fs' : List (String × V)}

/-- A field of a configuration: its key, how a setting is taken for it, and where it is kept. -/
structure Field (V E α : Type) where
  key : String
  take : V → Except E α
  get : Config → α
  put : Config → α → Config

def codelSizeField (co : Coercions V E) : Field V E Int64 :=
  ⟨"codel_size", co.toInt, codelSize, fun c n => { c with codelSize := n }⟩

def debugField (co : Coercions V E) : Field V E Bool :=
  ⟨"debug", co.toBool, debug, fun c b => { c with debug := b }⟩

def maxStepsField (co : Coercions V E) : Field V E Int64 :=
  ⟨"max_steps", co.toInt, maxSteps, fun c n => { c with maxSteps := n }⟩

def logLevelField (co : Coercions V E) : Field V E String :=
  ⟨"log_level", co.toText, logLevel, fun c s => { c with logLevel := s }⟩

def keys : List String := ["codel_size", "debug", "max_steps", "log_level"]

section OneKey

theorem mapError_map_eq_ok {r : Except E α} {f : α → Config}
    {g : E → ConfigFault E} (h : (r.map f).mapError g = .ok c) :
    ∃ a, r = .ok a ∧ c = f a := by
  cases r with
  | ok a => exact ⟨a, rfl, (Except.ok.inj h).symm⟩
  | error x => cases h

theorem mapError_map_eq_error {r : Except E α} {f : α → Config}
    {g : E → ConfigFault E} (h : (r.map f).mapError g = .error e) :
    ∃ x, r = .error x ∧ e = g x := by
  cases r with
  | ok a => cases h
  | error x => exact ⟨x, rfl, (Except.error.inj h).symm⟩

/-- What setting one key can do. -/
theorem set_cases (h : c.set co k v = .ok c') :
    (k = "codel_size" ∧ ∃ n, c' = { c with codelSize := n }) ∨
    (k = "debug" ∧ ∃ b, c' = { c with debug := b }) ∨
    (k = "max_steps" ∧ ∃ n, c' = { c with maxSteps := n }) ∨
    (k = "log_level" ∧ ∃ s, c' = { c with logLevel := s }) := by
  unfold set at h
  split at h
  case h_5 => cases h
  all_goals obtain ⟨a, _, rfl⟩ := mapError_map_eq_ok h
  · exact Or.inl ⟨rfl, a, rfl⟩
  · exact Or.inr (Or.inl ⟨rfl, a, rfl⟩)
  · exact Or.inr (Or.inr (Or.inl ⟨rfl, a, rfl⟩))
  · exact Or.inr (Or.inr (Or.inr ⟨rfl, a, rfl⟩))

/-- A field that its own key sets and no other one does. -/
structure Field.Lawful (co : Coercions V E) (x : Field V E α) : Prop where
  own (c : Config) (v : V) :
    c.set co x.key v = ((x.take v).map (x.put c)).mapError (.value x.key)
  get_put (c : Config) (a : α) : x.get (x.put c a) = a
  other {c c' : Config} {k : String} {v : V} :
    k ≠ x.key → c.set co k v = .ok c' → x.get c' = x.get c

theorem codelSizeField_lawful (co : Coercions V E) : (codelSizeField co).Lawful co where
  own _ _ := rfl
  get_put _ _ := rfl
  other hne h := by
    rcases set_cases h with ⟨hk, _⟩ | ⟨_, _, rfl⟩ | ⟨_, _, rfl⟩ | ⟨_, _, rfl⟩
    · exact absurd hk hne
    all_goals rfl

theorem debugField_lawful (co : Coercions V E) : (debugField co).Lawful co where
  own _ _ := rfl
  get_put _ _ := rfl
  other hne h := by
    rcases set_cases h with ⟨_, _, rfl⟩ | ⟨hk, _⟩ | ⟨_, _, rfl⟩ | ⟨_, _, rfl⟩
    case inr.inl => exact absurd hk hne
    all_goals rfl

theorem maxStepsField_lawful (co : Coercions V E) : (maxStepsField co).Lawful co where
  own _ _ := rfl
  get_put _ _ := rfl
  other hne h := by
    rcases set_cases h with ⟨_, _, rfl⟩ | ⟨_, _, rfl⟩ | ⟨hk, _⟩ | ⟨_, _, rfl⟩
    case inr.inr.inl => exact absurd hk hne
    all_goals rfl

theorem logLevelField_lawful (co : Coercions V E) : (logLevelField co).Lawful co where
  own _ _ := rfl
  get_put _ _ := rfl
  other hne h := by
    rcases set_cases h with ⟨_, _, rfl⟩ | ⟨_, _, rfl⟩ | ⟨_, _, rfl⟩ | ⟨hk, _⟩
    case inr.inr.inr => exact absurd hk hne
    all_goals rfl

theorem Field.Lawful.set_of_take {x : Field V E α} {a : α} (hx : x.Lawful co) (h : x.take v = .ok a)
    (c : Config) : c.set co x.key v = .ok (x.put c a) := by
  rw [hx.own, h]
  rfl

theorem Field.Lawful.take_of_set {x : Field V E α} (hx : x.Lawful co) (h : c.set co x.key v = .ok c') :
    x.take v = .ok (x.get c') := by
  rw [hx.own] at h
  obtain ⟨a, ha, rfl⟩ := mapError_map_eq_ok h
  rw [hx.get_put, ha]

/-- Whether a setting can be used does not go by what has been set before. -/
theorem set_error (h : c.set co k v = .error e) (c' : Config) : c'.set co k v = .error e := by
  unfold set at h ⊢
  split at h
  case h_5 => exact h
  all_goals
    obtain ⟨x, hx, rfl⟩ := mapError_map_eq_error h
    rw [hx]
    rfl

/-- What is wrong with a setting on its own. -/
def offence? (co : Coercions V E) (f : String × V) : Option (ConfigFault E) :=
  match ({} : Config).set co f.1 f.2 with
  | .ok _ => none
  | .error e => some e

theorem offence?_of_error (h : c.set co k v = .error e) : offence? co (k, v) = some e := by
  unfold offence?
  rw [set_error h {}]

theorem offence?_of_ok (h : c.set co k v = .ok c') : offence? co (k, v) = none := by
  unfold offence?
  cases hset : ({} : Config).set co k v with
  | ok _ => rfl
  | error e =>
    rw [set_error hset c] at h
    cases h

theorem sentinel?_of_offence? {f : String × V} (h : offence? co f = some e) :
    e.sentinel? = some .config := by
  obtain ⟨k, v⟩ := f
  have hset : ({} : Config).set co k v = .error e := by
    unfold offence? at h
    split at h
    next => cases h
    next e' he => exact he.trans (congrArg _ (Option.some.inj h))
  unfold set at hset
  split at hset
  case h_5 =>
    cases hset
    rfl
  all_goals
    obtain ⟨x, _, rfl⟩ := mapError_map_eq_error hset
    rfl

end OneKey

section AllKeys

variable {x : Field V E α}

/-- The field has what the setting of its key says, and its default if there is none. -/
def Field.HeldBy (x : Field V E α) (fs : List (String × V)) (c : Config) : Prop :=
  (∀ v, (x.key, v) ∈ fs → x.take v = .ok (x.get c)) ∧
    ((∀ v, (x.key, v) ∉ fs) → x.get c = x.get {})

/-- A configuration made of settings, all of which are known. -/
structure MadeOf (co : Coercions V E) (c : Config) (fs : List (String × V)) : Prop where
  known : ∀ f ∈ fs, f.1 ∈ keys
  codelSize : (codelSizeField co).HeldBy fs c
  debug : (debugField co).HeldBy fs c
  maxSteps : (maxStepsField co).HeldBy fs c
  logLevel : (logLevelField co).HeldBy fs c

/-- Sets keys one after the other. -/
def setAll (co : Coercions V E) (c : Config) (fs : List (String × V)) :
    Except (ConfigFault E) Config :=
  fs.foldlM (fun c f => c.set co f.1 f.2) c

theorem setAll_cons_of_ok {f : String × V} (h : c.set co f.1 f.2 = .ok c') :
    c.setAll co (f :: fs) = c'.setAll co fs := by
  unfold setAll
  rw [List.foldlM_cons, h]
  rfl

theorem setAll_cons_of_error {f : String × V} (h : c.set co f.1 f.2 = .error e) :
    c.setAll co (f :: fs) = .error e := by
  unfold setAll
  rw [List.foldlM_cons, h]
  rfl

theorem setAll_cons_ok {f : String × V} (h : c.setAll co (f :: fs) = .ok c') :
    ∃ c₁, c.set co f.1 f.2 = .ok c₁ ∧ c₁.setAll co fs = .ok c' := by
  cases hset : c.set co f.1 f.2 with
  | ok c₁ => exact ⟨c₁, rfl, (setAll_cons_of_ok hset).symm.trans h⟩
  | error e =>
    rw [setAll_cons_of_error hset] at h
    cases h

/-- The settings can all be used, or the fault is that of one of them. -/
theorem setAll_cases (co : Coercions V E) (c : Config) (fs : List (String × V)) :
    ((∃ c', c.setAll co fs = .ok c') ∧ ∀ f ∈ fs, offence? co f = none) ∨
      ∃ f ∈ fs, ∃ e, offence? co f = some e ∧ c.setAll co fs = .error e := by
  induction fs generalizing c with
  | nil => exact Or.inl ⟨⟨c, rfl⟩, by simp⟩
  | cons f fs ih =>
    cases hset : c.set co f.1 f.2 with
    | error e =>
      exact Or.inr ⟨f, by simp, e, offence?_of_error hset, setAll_cons_of_error hset⟩
    | ok c₁ =>
      rw [setAll_cons_of_ok hset]
      rcases ih c₁ with ⟨hok, hnone⟩ | ⟨f', hf', e, he, herror⟩
      · refine Or.inl ⟨hok, ?_⟩
        intro f' hf'
        rcases List.mem_cons.mp hf' with rfl | hf'
        · exact offence?_of_ok hset
        · exact hnone f' hf'
      · exact Or.inr ⟨f', by simp [hf'], e, he, herror⟩

theorem Field.Lawful.setAll (hx : x.Lawful co) (hkeys : (fs.map Prod.fst).Nodup)
    (h : c.setAll co fs = .ok c') :
    (∀ v, (x.key, v) ∈ fs → x.take v = .ok (x.get c')) ∧
      ((∀ v, (x.key, v) ∉ fs) → x.get c' = x.get c) := by
  induction fs generalizing c with
  | nil =>
    cases h
    exact ⟨by simp, fun _ => rfl⟩
  | cons f fs ih =>
    obtain ⟨k, v⟩ := f
    obtain ⟨c₁, hset, hrest⟩ := setAll_cons_ok h
    rw [List.map_cons, List.nodup_cons] at hkeys
    obtain ⟨hheld, hkept⟩ := ih hkeys.2 hrest
    constructor
    · intro w hw
      rcases List.mem_cons.mp hw with heq | hw
      · -- No later entry has this key, so the field stays as it is set here.
        obtain ⟨rfl, rfl⟩ := Prod.mk.inj heq
        have hlater : ∀ w, (x.key, w) ∉ fs :=
          fun w hw => hkeys.1 (List.mem_map.mpr ⟨_, hw, rfl⟩)
        rw [hkept hlater]
        exact hx.take_of_set hset
      · exact hheld w hw
    · intro hnone
      have hne : k ≠ x.key := by
        rintro rfl
        exact hnone v (by simp)
      rw [hkept fun w hw => hnone w (by simp [hw]), hx.other hne hset]

theorem setAll_known (h : c.setAll co fs = .ok c') : ∀ f ∈ fs, f.1 ∈ keys := by
  induction fs generalizing c with
  | nil => simp
  | cons f fs ih =>
    obtain ⟨c₁, hset, hrest⟩ := setAll_cons_ok h
    intro f' hf'
    rcases List.mem_cons.mp hf' with rfl | hf'
    · rcases set_cases hset with ⟨hk, _⟩ | ⟨hk, _⟩ | ⟨hk, _⟩ | ⟨hk, _⟩ <;> simp [keys, hk]
    · exact ih hrest f' hf'

theorem setAll_madeOf (hkeys : (fs.map Prod.fst).Nodup)
    (h : ({} : Config).setAll co fs = .ok c) : c.MadeOf co fs where
  known := setAll_known h
  codelSize := (codelSizeField_lawful co).setAll hkeys h
  debug := (debugField_lawful co).setAll hkeys h
  maxSteps := (maxStepsField_lawful co).setAll hkeys h
  logLevel := (logLevelField_lawful co).setAll hkeys h

theorem Field.HeldBy.unique (h : x.HeldBy fs c) (h' : x.HeldBy fs c') : x.get c = x.get c' := by
  by_cases hset : ∃ v, (x.key, v) ∈ fs
  · obtain ⟨v, hv⟩ := hset
    exact Except.ok.inj ((h.1 v hv).symm.trans (h'.1 v hv))
  · have hnone : ∀ v, (x.key, v) ∉ fs := fun v hv => hset ⟨v, hv⟩
    rw [h.2 hnone, h'.2 hnone]

theorem MadeOf.unique (h : c.MadeOf co fs) (h' : c'.MadeOf co fs) : c = c' := by
  obtain ⟨codelSize, debug, maxSteps, logLevel⟩ := c
  obtain ⟨codelSize', debug', maxSteps', logLevel'⟩ := c'
  have hsize : codelSize = codelSize' := h.codelSize.unique h'.codelSize
  have hdebug : debug = debug' := h.debug.unique h'.debug
  have hsteps : maxSteps = maxSteps' := h.maxSteps.unique h'.maxSteps
  have hlevel : logLevel = logLevel' := h.logLevel.unique h'.logLevel
  rw [hsize, hdebug, hsteps, hlevel]

theorem Field.HeldBy.congr (h : x.HeldBy fs c) (hmem : ∀ f, f ∈ fs ↔ f ∈ fs') : x.HeldBy fs' c :=
  ⟨fun v hv => h.1 v ((hmem _).mpr hv), fun hnone => h.2 fun v hv => hnone v ((hmem _).mp hv)⟩

theorem MadeOf.congr (h : c.MadeOf co fs) (hmem : ∀ f, f ∈ fs ↔ f ∈ fs') : c.MadeOf co fs' where
  known f hf := h.known f ((hmem f).mpr hf)
  codelSize := h.codelSize.congr hmem
  debug := h.debug.congr hmem
  maxSteps := h.maxSteps.congr hmem
  logLevel := h.logLevel.congr hmem

/-- Settings of which a configuration is made can all be used. -/
theorem MadeOf.offence?_eq_none (h : c.MadeOf co fs) : ∀ f ∈ fs, offence? co f = none := by
  rintro ⟨k, v⟩ hf
  have hk := h.known _ hf
  simp only [keys, List.mem_cons, List.not_mem_nil, or_false] at hk
  have husable : ∃ c', ({} : Config).set co k v = .ok c' := by
    rcases hk with rfl | rfl | rfl | rfl
    · exact ⟨_, (codelSizeField_lawful co).set_of_take (h.codelSize.1 v hf) _⟩
    · exact ⟨_, (debugField_lawful co).set_of_take (h.debug.1 v hf) _⟩
    · exact ⟨_, (maxStepsField_lawful co).set_of_take (h.maxSteps.1 v hf) _⟩
    · exact ⟨_, (logLevelField_lawful co).set_of_take (h.logLevel.1 v hf) _⟩
  obtain ⟨c', hc'⟩ := husable
  exact offence?_of_ok hc'

end AllKeys

section Validity

/-- A configuration that a run can be set up with. -/
structure Valid (co : Coercions V E) (c : Config) : Prop where
  codelSize : 1 ≤ c.codelSize.toInt
  maxSteps : 1 ≤ c.maxSteps.toInt
  logLevel : c.logLevel = "" ∨ co.isLevel c.logLevel

theorem setup_check_eq_ok_iff {codelSize stepLimit : Int64} :
    Setup.check codelSize stepLimit = .ok () ↔ 1 ≤ codelSize.toInt ∧ 1 ≤ stepLimit.toInt := by
  have hone : ∀ n : Int64, n < 1 ↔ ¬ 1 ≤ n.toInt := by
    intro n
    rw [Int64.lt_iff_toInt_lt]
    exact Int.not_le.symm
  unfold Setup.check
  split
  next hsize =>
    refine ⟨fun h => ?_, fun h => absurd h.1 ((hone _).mp hsize)⟩
    cases h
  next hsize =>
    split
    next hsteps =>
      refine ⟨fun h => ?_, fun h => absurd h.2 ((hone _).mp hsteps)⟩
      cases h
    next hsteps =>
      rw [hone, not_not] at hsize hsteps
      exact ⟨fun _ => ⟨hsize, hsteps⟩, fun _ => rfl⟩

theorem check_eq_ok_iff : c.check co = .ok () ↔ c.Valid co := by
  unfold check
  constructor
  · intro h
    split at h
    next => cases h
    next hcheck =>
      obtain ⟨hsize, hsteps⟩ := setup_check_eq_ok_iff.mp hcheck
      split at h
      next hlevel => exact ⟨hsize, hsteps, hlevel⟩
      next => cases h
  · intro h
    rw [setup_check_eq_ok_iff.mpr ⟨h.codelSize, h.maxSteps⟩]
    exact if_pos h.logLevel

theorem ofEntries_eq (co : Coercions V E) (fs : List (String × V)) :
    ofEntries co fs = match ({} : Config).setAll co fs with
      | .ok c => (c, c.check co)
      | .error e => (blank, .error e) := rfl

theorem ofEntries_of_ok (h : ({} : Config).setAll co fs = .ok c) :
    ofEntries co fs = (c, c.check co) := by
  rw [ofEntries_eq, h]

theorem ofEntries_of_error (h : ({} : Config).setAll co fs = .error e) :
    ofEntries co fs = (blank, .error e) := by
  rw [ofEntries_eq, h]

/-- There is no fault just if the configuration is one that can be used and is made of the
settings. -/
theorem ofEntries_eq_ok_iff (hkeys : (fs.map Prod.fst).Nodup) :
    ofEntries co fs = (c, .ok ()) ↔ c.Valid co ∧ c.MadeOf co fs := by
  rcases setAll_cases co {} fs with ⟨⟨c', hc'⟩, _⟩ | ⟨f, hf, e, he, herror⟩
  · have hmade := setAll_madeOf hkeys hc'
    rw [ofEntries_of_ok hc', Prod.mk.injEq]
    constructor
    · rintro ⟨rfl, hvalid⟩
      exact ⟨check_eq_ok_iff.mp hvalid, hmade⟩
    · rintro ⟨hvalid, hc⟩
      obtain rfl := hmade.unique hc
      exact ⟨rfl, check_eq_ok_iff.mpr hvalid⟩
  · rw [ofEntries_of_error herror, Prod.mk.injEq]
    constructor
    · rintro ⟨_, hok⟩
      cases hok
    · rintro ⟨_, hc⟩
      rw [hc.offence?_eq_none f hf] at he
      cases he

/-- In whichever order the entries of a map are looked at, and whatever their values are taken for,
the configuration is the same, and so is the sentinel of what is wrong with it; only what is wrong
with one entry and what is wrong with another may stand for each other. Nothing is wrong just if the
configuration can be used and has what the settings say, all keys being known. -/
theorem settings_in_any_order (co : Coercions V E) (hkeys : (fs.map Prod.fst).Nodup)
    (horder : fs.Perm fs') :
    (ofEntries co fs).1 = (ofEntries co fs').1 ∧
    (ofEntries co fs).2.mapError ConfigFault.sentinel? =
      (ofEntries co fs').2.mapError ConfigFault.sentinel? ∧
    ((ofEntries co fs).2 = (ofEntries co fs').2 ∨
      ∃ f ∈ fs, ∃ f' ∈ fs, ∃ e e', offence? co f = some e ∧ offence? co f' = some e' ∧
        (ofEntries co fs).2 = .error e ∧ (ofEntries co fs').2 = .error e') ∧
    ∀ c, ofEntries co fs = (c, .ok ()) ↔ c.Valid co ∧ c.MadeOf co fs := by
  have hmem : ∀ f, f ∈ fs ↔ f ∈ fs' := fun f => horder.mem_iff
  have hkeys' : (fs'.map Prod.fst).Nodup := (horder.map Prod.fst).nodup_iff.mp hkeys
  rw [← and_assoc, ← and_assoc]
  refine ⟨?_, fun c => ofEntries_eq_ok_iff hkeys⟩
  rcases setAll_cases co {} fs with ⟨⟨c, hc⟩, hnone⟩ | ⟨f, hf, e, he, herror⟩
  · rcases setAll_cases co {} fs' with ⟨⟨c', hc'⟩, _⟩ | ⟨f, hf, e, he, _⟩
    · have hsame : c = c' :=
        ((setAll_madeOf hkeys hc).congr hmem).unique (setAll_madeOf hkeys' hc')
      rw [ofEntries_of_ok hc, ofEntries_of_ok hc', hsame]
      exact ⟨⟨rfl, rfl⟩, Or.inl rfl⟩
    · rw [hnone f ((hmem f).mpr hf)] at he
      cases he
  · rcases setAll_cases co {} fs' with ⟨_, hnone⟩ | ⟨f', hf', e', he', herror'⟩
    · rw [hnone f ((hmem f).mp hf)] at he
      cases he
    · rw [ofEntries_of_error herror, ofEntries_of_error herror']
      refine ⟨⟨rfl, ?_⟩, Or.inr ⟨f, hf, f', (hmem f').mpr hf', e, e', he, he', rfl, rfl⟩⟩
      exact congrArg Except.error
        ((sentinel?_of_offence? he).trans (sentinel?_of_offence? he').symm)

/-- Two settings that can be used, and two that cannot, of which the first one is named. -/
theorem settings_in_any_order_reversed :
    let good : Fields := [("codel_size", .int64 2), ("log_level", .text "INFO")]
    let bad : Fields := [("size", .nothing), ("debug", .int64 1)]
    ((good.map Prod.fst).Nodup ∧ good.Perm good.reverse ∧
      (ofSettings good).1 = (ofSettings good.reverse).1 ∧
      ({ codelSize := 2, logLevel := "INFO" } : Config).MadeOf Setting.coercions good) ∧
    (bad.map Prod.fst).Nodup ∧ bad.Perm bad.reverse ∧
      (ofSettings bad).2.mapError ConfigFault.sentinel? =
        (ofSettings bad.reverse).2.mapError ConfigFault.sentinel? ∧
      (ofSettings bad).2 = .error (.unknownKey "size") ∧
      (ofSettings bad.reverse).2 = .error (.value "debug" (.foreign (.int64 1) "bool")) := by
  intro good bad
  have hgood : (good.map Prod.fst).Nodup := by decide
  have hbad : (bad.map Prod.fst).Nodup := by decide
  have hreversed : good.Perm good.reverse := good.reverse_perm.symm
  have hturned : bad.Perm bad.reverse := bad.reverse_perm.symm
  obtain ⟨hsame, _, _, hiff⟩ := settings_in_any_order Setting.coercions hgood hreversed
  obtain ⟨_, hsentinel, _⟩ := settings_in_any_order Setting.coercions hbad hturned
  have hmade := ((hiff { codelSize := 2, logLevel := "INFO" }).mp rfl).2
  exact ⟨⟨hgood, hreversed, hsame, hmade⟩, hbad, hturned, hsentinel, rfl, rfl⟩

end Validity

end Config

end Codel
