import Mathlib
import WidgetJsx.Proofs.KeptText
import WidgetJsx.Proofs.Nearest
import WidgetJsx.Service.Query

/-! Which requests are accepted, and what is wrong with the others. A request is read just when it is valid, as
what it says; otherwise the first check that it fails, in a fixed order, is told. -/

namespace WidgetJsx

open Text

theorem Text.isEmpty_trimmed_iff {text : String} :
    (trimmed text).isEmpty = true ↔ ∀ c ∈ text.toList, isBlank c = true := by
  have hstart : (∀ c ∈ trimStart text.toList, isBlank c = true) ↔ ∀ c ∈ text.toList, isBlank c = true := by
    conv_rhs => rw [← List.takeWhile_append_dropWhile (p := isBlank) (l := text.toList)]
    rw [List.forall_mem_append, ← trimStart, and_iff_right fun _ => List.mem_takeWhile_imp]
  rw [← hstart, String.isEmpty_iff, trimmed, String.ofList_eq_empty_iff, trim, trimEnd,
    List.reverse_eq_nil_iff, List.dropWhile_eq_nil_iff]
  simp

namespace Service

/-- What a setting is, where one that is left out has a standard value. -/
inductive Given {α : Type} (standard : α) (Says : Json → α → Prop) : Option Json → α → Prop
  | left : Given standard Says none standard
  | set {v : Json} {a : α} : Says v a → Given standard Says (some v) a

namespace Options

def IsFlag (v : Json) (value : Bool) : Prop := v = .boolean value

/-- A number whose value is whole, from zero up to the largest of 32 bits. -/
def IsUnit (v : Json) (unit : Nat) : Prop :=
  ∃ n, v = .number n ∧ n.toBinary64.isFinite = true ∧ n.toBinary64.value = unit ∧ unit ≤ 4294967295

/-- What the options of a request may be, and what they say. -/
inductive Valid : Option Json → Options → Prop
  | absent : Valid none ⟨false, 2⟩
  | null : Valid (some .null) ⟨false, 2⟩
  | object {fields : Fields Json} {imports : Bool} {unit : Nat} :
      Given false IsFlag (fields.get? "include_imports") imports →
      Given 2 IsUnit (fields.get? "indent_size") unit → Valid (some (.object fields)) ⟨imports, unit⟩
  | array {items : List Json} {imports : Bool} {unit : Nat} : items.length ≤ 2 →
      Given false IsFlag items[0]? imports → Given 2 IsUnit items[1]? unit →
      Valid (some (.array items)) ⟨imports, unit⟩

/-- The value that options set something to, by its key or by its place. -/
def setting? (key : String) (place : Nat) : Json → Option Json
  | .object fields => fields.get? key
  | .array items => items[place]?
  | _ => none

end Options

namespace Query

/-- The requests that are accepted, and what they ask for. -/
inductive Valid : Json → Query → Prop
  | intro {fields : Fields Json} {text : String} {options : Options} :
      fields.get? "flutter_code" = some (.string text) → (∃ c ∈ text.toList, isBlank c = false) →
      Options.Valid (fields.get? "options") options → Valid (.object fields) ⟨trimmed text, options⟩

/-- A code like these counts as left out. -/
inductive Absent : Option Json → Prop
  | none : Absent none
  | null : Absent (some .null)
  | no : Absent (some (.boolean false))
  | zero {n : Json.Number} : n.toBinary64.isFinite = true → n.toBinary64.value = 0 →
      Absent (some (.number n))
  | empty : Absent (some (.string ""))

inductive Check
  | missing
  | notText
  | blank
  | kind
  | imports
  | unit
  | length
deriving DecidableEq

namespace Check

/-- What is checked of the code, and then of the options. -/
def ofCode : List Check := [missing, notText, blank]

def ofOptions : List Check := [kind, imports, unit, length]

/-- A request fails a check, and is told so. -/
inductive Fails (params : Json) : Check → Fault → Prop
  | missing : Absent (params.get? "flutter_code") → Fails params .missing .missing
  | notText {v : Json} : params.get? "flutter_code" = some v → (∀ text, v ≠ .string text) →
      Fails params .notText .notText
  | blank {text : String} : params.get? "flutter_code" = some (.string text) →
      (∀ c ∈ text.toList, isBlank c = true) → Fails params .blank .blank
  | kind {v : Json} : params.get? "options" = some v → v ≠ .null → (∀ fields, v ≠ .object fields) →
      (∀ items, v ≠ .array items) → Fails params .kind (.options (.wrongKind v .options))
  | imports {options v : Json} : params.get? "options" = some options →
      Options.setting? "include_imports" 0 options = some v → (∀ value, v ≠ .boolean value) →
      Fails params .imports (.options (.wrongKind v .boolean))
  | unitKind {options v : Json} : params.get? "options" = some options →
      Options.setting? "indent_size" 1 options = some v → (∀ n, v ≠ .number n) →
      Fails params .unit (.options (.wrongKind v .number))
  | unitValue {options : Json} {n : Json.Number} : params.get? "options" = some options →
      Options.setting? "indent_size" 1 options = some (.number n) →
      (∀ unit, ¬ Options.IsUnit (.number n) unit) → Fails params .unit (.options (.notWhole n.toBinary64))
  | length {items : List Json} : params.get? "options" = some (.array items) → 2 < items.length →
      Fails params .length (.options (.tooManyItems items.length))

/-- The fault of the first check that fails. -/
inductive First (params : Json) : List Check → Fault → Prop
  | here {check : Check} {checks : List Check} {fault : Fault} : check.Fails params fault →
      First params (check :: checks) fault
  | later {check : Check} {checks : List Check} {fault : Fault} : (∀ other, ¬ check.Fails params other) →
      First params checks fault → First params (check :: checks) fault

theorem First.append {params : Json} {checks more : List Check} {fault : Fault}
    (h : First params checks fault) : First params (checks ++ more) fault := by
  induction h with
  | here h => exact .here h
  | later hpass _ ih => exact .later hpass ih

theorem First.after {params : Json} {checks more : List Check} {fault : Fault}
    (hpass : ∀ check ∈ checks, ∀ other, ¬ check.Fails params other) (h : First params more fault) :
    First params (checks ++ more) fault := by
  induction checks with
  | nil => exact h
  | cons check checks ih =>
    exact .later (hpass check List.mem_cons_self) (ih fun c hc => hpass c (List.mem_cons_of_mem _ hc))

theorem First.exists_fails {params : Json} {checks : List Check} {fault : Fault}
    (h : First params checks fault) : ∃ check ∈ checks, check.Fails params fault := by
  induction h with
  | here h => exact ⟨_, List.mem_cons_self, h⟩
  | later _ _ ih =>
    obtain ⟨check, hc, hf⟩ := ih
    exact ⟨check, List.mem_cons_of_mem _ hc, hf⟩

theorem Fails.unique {params : Json} {check : Check} {fault other : Fault} (h : check.Fails params fault)
    (h' : check.Fails params other) : fault = other := by
  cases h <;> cases h' <;> grind

theorem First.unique {params : Json} {checks : List Check} {fault other : Fault}
    (h : First params checks fault) (h' : First params checks other) : fault = other := by
  induction h with
  | here h =>
    cases h' with
    | here h' => exact h.unique h'
    | later hpass _ => exact absurd h (hpass _)
  | later hpass _ ih =>
    cases h' with
    | here h' => exact absurd h' (hpass _)
    | later _ h' => exact ih h'

end Check

end Query

section

variable {α : Type} {v : Json}

namespace Options

theorem readBoolean_eq_ok_iff {value : Bool} : readBoolean v = .ok value ↔ IsFlag v value := by
  cases v <;> simp [readBoolean, IsFlag]

theorem fault_of_readBoolean {fault : Fault} (h : readBoolean v = .error fault) :
    (∀ value, v ≠ .boolean value) ∧ fault = .wrongKind v .boolean := by
  cases v with
  | boolean value => cases h
  | null | number | string | array | object =>
    cases h
    exact ⟨fun _ => Json.noConfusion, rfl⟩

theorem readUnit_number_eq_ok_iff {n : Json.Number} {unit : Nat} :
    readUnit (.number n) = .ok unit ↔ n.toBinary64.toNat? = some unit ∧ unit ≤ unitBound := by
  simp only [readUnit]
  cases n.toBinary64.toNat? with
  | none => simp
  | some k =>
    dsimp only
    rw [Option.some.injEq]
    by_cases hk : k ≤ unitBound
    · rw [if_pos hk, Except.ok.injEq]
      exact (and_iff_left_of_imp fun h => h ▸ hk).symm
    · rw [if_neg hk]
      exact iff_of_false (fun h => by cases h) fun h => hk (h.1 ▸ h.2)

theorem readUnit_eq_ok_iff {unit : Nat} : readUnit v = .ok unit ↔ IsUnit v unit := by
  cases v with
  | number n =>
    rw [readUnit_number_eq_ok_iff, Binary64.toNat?_eq_some_iff, and_assoc]
    constructor
    · exact fun h => ⟨n, rfl, h⟩
    · rintro ⟨n', he, h⟩
      cases he
      exact h
  | null | boolean | string | array | object => simp [readUnit, IsUnit]

theorem fault_of_readUnit {fault : Fault} (h : readUnit v = .error fault) :
    (∀ n, v ≠ .number n) ∧ fault = .wrongKind v .number ∨
      ∃ n, v = .number n ∧ (∀ unit, ¬ IsUnit v unit) ∧ fault = .notWhole n.toBinary64 := by
  cases v with
  | number n =>
    refine .inr ⟨n, rfl, fun unit hu => ?_, ?_⟩
    · rw [readUnit_eq_ok_iff.mpr hu] at h
      cases h
    · simp only [readUnit] at h
      split at h
      · split at h
        · cases h
        · cases h
          rfl
      · cases h
        rfl
  | null | boolean | string | array | object =>
    cases h
    exact .inl ⟨fun _ => Json.noConfusion, rfl⟩

/-- Reading a setting that may be left out. -/
def readGiven (standard : α) (read : Json → Except Fault α) : Option Json → Except Fault α
  | some v => read v
  | none => .ok standard

theorem readGiven_eq_ok_iff {standard : α} {read : Json → Except Fault α} {Says : Json → α → Prop}
    (h : ∀ v a, read v = .ok a ↔ Says v a) {v? : Option Json} {a : α} :
    readGiven standard read v? = .ok a ↔ Given standard Says v? a := by
  cases v? with
  | none =>
    constructor
    · rintro ⟨⟩
      exact .left
    · rintro ⟨⟩
      rfl
  | some v =>
    constructor
    · exact fun hr => .set ((h v a).mp hr)
    · intro hg
      cases hg with
      | set hs => exact (h v a).mpr hs

theorem exists_of_readGiven {standard : α} {read : Json → Except Fault α} {v? : Option Json} {fault : Fault}
    (h : readGiven standard read v? = .error fault) : ∃ v, v? = some v ∧ read v = .error fault := by
  cases v? with
  | none => cases h
  | some v => exact ⟨v, rfl, h⟩

theorem readValues_bind (imports? unit? : Option Json) : readValues imports? unit? =
    readGiven false readBoolean imports? >>= fun imports =>
      readGiven 2 readUnit unit? >>= fun unit => .ok ⟨imports, unit⟩ := by
  cases imports? <;> cases unit? <;> rfl

theorem readValues_eq_ok_iff {imports? unit? : Option Json} {imports : Bool} {unit : Nat} :
    readValues imports? unit? = .ok ⟨imports, unit⟩ ↔
      Given false IsFlag imports? imports ∧ Given 2 IsUnit unit? unit := by
  rw [← readGiven_eq_ok_iff fun _ _ => readBoolean_eq_ok_iff,
    ← readGiven_eq_ok_iff fun _ _ => readUnit_eq_ok_iff, readValues_bind]
  cases readGiven false readBoolean imports? with
  | error fault => exact iff_of_false (fun h => by cases h) fun h => by cases h.1
  | ok imports' =>
    cases readGiven 2 readUnit unit? with
    | error fault => exact iff_of_false (fun h => by cases h) fun h => by cases h.2
    | ok unit' =>
      constructor
      · rintro ⟨⟩
        exact ⟨rfl, rfl⟩
      · rintro ⟨⟨⟩, ⟨⟩⟩
        rfl

theorem read_array (items : List Json) : Options.read (.array items) =
    readValues items[0]? items[1]? >>= fun options =>
      if 2 < items.length then .error (.tooManyItems items.length) else .ok options := by
  rw [Options.read]
  split <;> rfl

theorem read_array_eq_ok_iff {items : List Json} {options : Options} :
    Options.read (.array items) = .ok options ↔
      items.length ≤ 2 ∧ readValues items[0]? items[1]? = .ok options := by
  rw [read_array]
  cases readValues items[0]? items[1]? with
  | error fault => exact iff_of_false (fun h => by cases h) fun h => by cases h.2
  | ok found =>
    change (if 2 < items.length then _ else _) = _ ↔ _
    by_cases hl : 2 < items.length
    · rw [if_pos hl]
      exact iff_of_false (fun h => by cases h) fun h => Nat.not_lt.mpr h.1 hl
    · rw [if_neg hl, and_iff_right (Nat.not_lt.mp hl)]

theorem read_eq_ok_iff {options? : Option Json} {options : Options} :
    Options.read (options?.getD .null) = .ok options ↔ Valid options? options := by
  have hstandard {options? : Option Json} (hv : Valid options? standard)
      (hvalid : ∀ other, Valid options? other → other = standard) :
      (.ok standard : Except Fault Options) = .ok options ↔ Valid options? options :=
    ⟨fun h => Except.ok.inj h ▸ hv, fun h => hvalid options h ▸ rfl⟩
  obtain ⟨imports, unit⟩ := options
  cases options? with
  | none => exact hstandard .absent fun _ h => by cases h; rfl
  | some v =>
    cases v with
    | null => exact hstandard .null fun _ h => by cases h; rfl
    | object fields =>
      change readValues (fields.get? "include_imports") (fields.get? "indent_size") = _ ↔ _
      rw [readValues_eq_ok_iff]
      constructor
      · exact fun h => .object h.1 h.2
      · intro h
        cases h with
        | object hi hu => exact ⟨hi, hu⟩
    | array items =>
      rw [Option.getD_some, read_array_eq_ok_iff, readValues_eq_ok_iff]
      constructor
      · exact fun h => .array h.1 h.2.1 h.2.2
      · intro h
        cases h with
        | array hl hi hu => exact ⟨hl, hi, hu⟩
    | boolean | number | string => exact iff_of_false (fun h => by cases h) fun h => by cases h

theorem Valid.given {imports : Bool} {unit : Nat} (h : Valid (some v) ⟨imports, unit⟩) :
    Given false IsFlag (setting? "include_imports" 0 v) imports ∧
      Given 2 IsUnit (setting? "indent_size" 1 v) unit := by
  cases h with
  | null => exact ⟨.left, .left⟩
  | object hi hu => exact ⟨hi, hu⟩
  | array _ hi hu => exact ⟨hi, hu⟩

theorem Valid.unit_le {options? : Option Json} {options : Options} (h : Valid options? options) :
    options.unit ≤ unitBound := by
  have hgiven {v? : Option Json} {unit : Nat} (hu : Given 2 IsUnit v? unit) : unit ≤ unitBound := by
    cases hu with
    | left => decide
    | set hu =>
      obtain ⟨n, -, -, -, hu⟩ := hu
      exact hu
  cases h with
  | absent | null => decide
  | object _ hu => exact hgiven hu
  | array _ _ hu => exact hgiven hu

end Options

end

namespace Query

variable {params : Json} {q : Query} {code : String}

theorem isAbsent_iff {v : Json} : isAbsent v = true ↔ Absent (some v) := by
  cases v with
  | null => exact iff_of_true rfl .null
  | boolean value =>
    cases value with
    | false => exact iff_of_true rfl .no
    | true => exact iff_of_false (fun h => by cases h) fun h => by cases h
  | number n =>
    refine Binary64.isZero_iff.trans ⟨fun h => .zero h.1 h.2, fun h => ?_⟩
    cases h with
    | zero hf hv => exact ⟨hf, hv⟩
  | string text =>
    refine String.isEmpty_iff.trans ⟨?_, ?_⟩
    · rintro rfl
      exact .empty
    · rintro ⟨⟩
      rfl
  | array | object => exact iff_of_false (fun h => by cases h) fun h => by cases h

theorem readCode_eq {text : String} (hget : params.get? "flutter_code" = some (.string text))
    (htext : text ≠ "") : readCode params =
      if (trimmed text).isEmpty then .error .blank else .ok (trimmed text) := by
  have habsent : isAbsent (.string text) = false := by
    simpa [isAbsent] using htext
  simp only [readCode, hget, habsent, Bool.false_eq_true, if_false]

theorem readCode_eq_ok_iff : readCode params = .ok code ↔ ∃ text,
    params.get? "flutter_code" = some (.string text) ∧ (∃ c ∈ text.toList, isBlank c = false) ∧
      trimmed text = code := by
  have hshown {text : String} : (∃ c ∈ text.toList, isBlank c = false) ↔ ¬ (trimmed text).isEmpty = true := by
    rw [isEmpty_trimmed_iff]
    simp
  constructor
  · intro h
    simp only [readCode] at h
    split at h
    · cases h
    rename_i v hget
    split at h
    · cases h
    split at h
    · split at h
      · cases h
      · cases h
        exact ⟨_, hget, hshown.mpr ‹_›, rfl⟩
    · cases h
  · rintro ⟨text, hget, hs, rfl⟩
    obtain ⟨c, hc, -⟩ := id hs
    have hne : text ≠ "" := by
      rintro rfl
      cases hc
    rw [readCode_eq hget hne, if_neg (hshown.mp hs)]

theorem read_eq {options : Options}
    (hoptions : Options.read ((params.get? "options").getD .null) = .ok options) :
    read params = (readCode params).map (⟨·, options⟩) := by
  rw [read, hoptions]
  cases readCode params with
  | ok code => rfl
  | error fault => rfl

theorem read_eq_ok_iff : read params = .ok q ↔ Valid params q := by
  constructor
  · intro h
    obtain ⟨code, hcode, h⟩ := Expression.exists_of_bind_eq_ok h
    split at h
    · rename_i options hoptions
      cases h
      obtain ⟨text, hget, hs, rfl⟩ := readCode_eq_ok_iff.mp hcode
      cases params with
      | object fields => exact .intro hget hs (Options.read_eq_ok_iff.mp hoptions)
      | null | boolean | number | string | array => cases hget
    · cases h
  · intro h
    cases h with
    | @intro fields text options hget hs ho =>
      rw [@read_eq (.object fields) _ (Options.read_eq_ok_iff.mpr ho),
        (@readCode_eq_ok_iff (.object fields) _).mpr ⟨text, hget, hs, rfl⟩]
      rfl

theorem unit_le_of_read (h : read params = .ok q) : q.options.unit ≤ Options.unitBound := by
  cases read_eq_ok_iff.mp h with
  | intro _ _ ho => exact ho.unit_le

namespace Check

theorem first_of_readCode {fault : Fault} (h : readCode params = .error fault) : First params ofCode fault := by
  simp only [readCode] at h
  cases hget : params.get? "flutter_code" with
  | none =>
    simp only [hget] at h
    cases h
    exact .here (.missing (hget ▸ .none))
  | some v =>
    simp only [hget] at h
    by_cases ha : isAbsent v = true
    · rw [if_pos ha] at h
      cases h
      exact .here (.missing (hget ▸ isAbsent_iff.mp ha))
    rw [if_neg ha] at h
    have hmissing : ∀ other, ¬ missing.Fails params other := by
      rintro _ ⟨hm⟩
      exact ha (isAbsent_iff.mpr (hget ▸ hm))
    cases v with
    | string text =>
      have htext : ∀ other, ¬ notText.Fails params other := by
        intro other hf
        cases hf with
        | notText hv hne => exact hne text (Option.some.inj (hv.symm.trans hget))
      dsimp only at h
      split at h
      · cases h
        exact .later hmissing (.later htext (.here (.blank hget (isEmpty_trimmed_iff.mp ‹_›))))
      · cases h
    | null | boolean | number | array | object =>
      cases h
      exact .later hmissing (.here (.notText hget fun _ => Json.noConfusion))

theorem not_fails_of_readCode (h : readCode params = .ok code) :
    ∀ check ∈ ofCode, ∀ other, ¬ check.Fails params other := by
  obtain ⟨text, hget, ⟨c, hc, hb⟩, -⟩ := readCode_eq_ok_iff.mp h
  intro check hcheck other hf
  cases hf with
  | missing hm =>
    rw [hget] at hm
    cases hm
    cases hc
  | notText hv hne => exact hne text (Option.some.inj (hv.symm.trans hget))
  | blank hv hall =>
    rw [hget] at hv
    cases hv
    rw [hall c hc] at hb
    cases hb
  | kind | imports | unitKind | unitValue | length => exact absurd hcheck (by decide)

section

variable {v : Json}

theorem not_fails_imports (ho : params.get? "options" = some v) {imports : Bool}
    (h : Given false Options.IsFlag (Options.setting? "include_imports" 0 v) imports) :
    ∀ other, ¬ Check.imports.Fails params other := by
  intro other hf
  cases hf with
  | imports ho' hw hne =>
    obtain rfl := Option.some.inj (ho.symm.trans ho')
    rw [hw] at h
    cases h with
    | set h => exact hne imports h

theorem not_fails_unit (ho : params.get? "options" = some v) {unit : Nat}
    (h : Given 2 Options.IsUnit (Options.setting? "indent_size" 1 v) unit) :
    ∀ other, ¬ Check.unit.Fails params other := by
  intro other hf
  cases hf with
  | unitKind ho' hw hne =>
    obtain rfl := Option.some.inj (ho.symm.trans ho')
    rw [hw] at h
    cases h with
    | set h =>
      obtain ⟨n, hn, -⟩ := h
      exact hne n hn
  | unitValue ho' hw hne =>
    obtain rfl := Option.some.inj (ho.symm.trans ho')
    rw [hw] at h
    cases h with
    | set h => exact hne unit h

theorem not_fails_kind (ho : params.get? "options" = some v)
    (h : v = .null ∨ (∃ fields, v = .object fields) ∨ ∃ items, v = .array items) :
    ∀ other, ¬ Check.kind.Fails params other := by
  intro other hf
  cases hf with
  | kind ho' hnull hobject harray =>
    obtain rfl := Option.some.inj (ho.symm.trans ho')
    rcases h with rfl | ⟨fields, rfl⟩ | ⟨items, rfl⟩
    · exact hnull rfl
    · exact hobject fields rfl
    · exact harray items rfl

theorem first_of_readValues (ho : params.get? "options" = some v) {fault : Options.Fault}
    (h : Options.readValues (Options.setting? "include_imports" 0 v) (Options.setting? "indent_size" 1 v) =
      .error fault) (more : List Check) : First params (imports :: unit :: more) (.options fault) := by
  rw [Options.readValues_bind] at h
  cases hi : Options.readGiven false Options.readBoolean (Options.setting? "include_imports" 0 v) with
  | error fault' =>
    rw [hi] at h
    cases h
    obtain ⟨w, hw, hr⟩ := Options.exists_of_readGiven hi
    obtain ⟨hne, rfl⟩ := Options.fault_of_readBoolean hr
    exact .here (.imports ho hw hne)
  | ok imports =>
    rw [hi] at h
    have hgiven := (Options.readGiven_eq_ok_iff fun _ _ => Options.readBoolean_eq_ok_iff).mp hi
    refine .later (not_fails_imports ho hgiven) ?_
    cases hu : Options.readGiven 2 Options.readUnit (Options.setting? "indent_size" 1 v) with
    | error fault' =>
      rw [hu] at h
      cases h
      obtain ⟨w, hw, hr⟩ := Options.exists_of_readGiven hu
      rcases Options.fault_of_readUnit hr with ⟨hne, rfl⟩ | ⟨n, rfl, hne, rfl⟩
      · exact .here (.unitKind ho hw hne)
      · exact .here (.unitValue ho hw hne)
    | ok unit =>
      rw [hu] at h
      cases h

theorem first_of_options {fault : Options.Fault}
    (h : Options.read ((params.get? "options").getD .null) = .error fault) :
    First params ofOptions (.options fault) := by
  cases ho : params.get? "options" with
  | none =>
    rw [ho] at h
    cases h
  | some v =>
    rw [ho, Option.getD_some] at h
    cases v with
    | null => cases h
    | object fields =>
      exact .later (not_fails_kind ho (.inr (.inl ⟨fields, rfl⟩))) (first_of_readValues ho h _)
    | array items =>
      refine .later (not_fails_kind ho (.inr (.inr ⟨items, rfl⟩))) ?_
      rw [Options.read_array] at h
      cases hv : Options.readValues items[0]? items[1]? with
      | error fault' =>
        rw [hv] at h
        cases h
        exact first_of_readValues ho hv _
      | ok options =>
        obtain ⟨hi, hu⟩ := Options.readValues_eq_ok_iff.mp hv
        rw [hv] at h
        by_cases hl : 2 < items.length
        · obtain rfl : Options.Fault.tooManyItems items.length = fault :=
            Except.error.inj ((if_pos hl).symm.trans h)
          exact .later (not_fails_imports ho hi) (.later (not_fails_unit ho hu) (.here (.length ho hl)))
        · cases (if_neg hl).symm.trans h
    | boolean | number | string =>
      cases h
      exact .here (.kind ho Json.noConfusion (fun _ => Json.noConfusion) fun _ => Json.noConfusion)

theorem not_fails_of_options {options : Options}
    (h : Options.read ((params.get? "options").getD .null) = .ok options) :
    ∀ check ∈ ofOptions, ∀ other, ¬ check.Fails params other := by
  have hvalid := Options.read_eq_ok_iff.mp h
  intro check hcheck other hf
  cases hf with
  | missing | notText | blank => exact absurd hcheck (by decide)
  | kind ho hnull hobject harray =>
    rw [ho] at hvalid
    cases hvalid with
    | null => exact hnull rfl
    | object => exact hobject _ rfl
    | array => exact harray _ rfl
  | imports ho hw hne => exact not_fails_imports ho (ho ▸ hvalid).given.1 _ (.imports ho hw hne)
  | unitKind ho hw hne => exact not_fails_unit ho (ho ▸ hvalid).given.2 _ (.unitKind ho hw hne)
  | unitValue ho hw hne => exact not_fails_unit ho (ho ▸ hvalid).given.2 _ (.unitValue ho hw hne)
  | length ho hl =>
    rw [ho] at hvalid
    cases hvalid with
    | array hle => exact Nat.not_lt.mpr hle hl

end

end Check

theorem first_of_read {fault : Fault} (h : read params = .error fault) :
    Check.First params (Check.ofCode ++ Check.ofOptions) fault := by
  cases hcode : readCode params with
  | error fault' =>
    rw [read, hcode] at h
    cases h
    exact (Check.first_of_readCode hcode).append
  | ok code =>
    refine .after (Check.not_fails_of_readCode hcode) ?_
    cases hoptions : Options.read ((params.get? "options").getD .null) with
    | error fault' =>
      rw [read, hcode, hoptions] at h
      cases h
      exact Check.first_of_options hoptions
    | ok options =>
      rw [read_eq hoptions, hcode] at h
      cases h

theorem not_fails_of_read (h : read params = .ok q) :
    ∀ check ∈ Check.ofCode ++ Check.ofOptions, ∀ other, ¬ check.Fails params other := by
  obtain ⟨code, hcode, h⟩ := Expression.exists_of_bind_eq_ok h
  intro check hcheck
  rcases List.mem_append.mp hcheck with hc | hc
  · exact Check.not_fails_of_readCode hcode check hc
  · split at h
    · exact Check.not_fails_of_options ‹_› check hc
    · cases h

theorem read_eq_error_iff {fault : Fault} : read params = .error fault ↔
    Check.First params (Check.ofCode ++ Check.ofOptions) fault := by
  refine ⟨first_of_read, fun h => ?_⟩
  cases hr : read params with
  | ok q =>
    obtain ⟨check, hcheck, hf⟩ := h.exists_fails
    exact absurd hf (not_fails_of_read hr check hcheck fault)
  | error fault' => rw [(first_of_read hr).unique h]

/-- A request is accepted just when it is valid, as the query that it says. Of a request that is not, the
first check that it fails is told: whether there is a code, whether that is a text and not blank, then
what the options are, their imports, their unit and their number. -/
theorem read_exact (params : Json) : (∀ q, read params = .ok q ↔ Valid params q) ∧
    ∀ fault, read params = .error fault ↔
      Check.First params (Check.ofCode ++ Check.ofOptions) fault :=
  ⟨fun _ => read_eq_ok_iff, fun _ => read_eq_error_iff⟩

end Query

end Service

end WidgetJsx
