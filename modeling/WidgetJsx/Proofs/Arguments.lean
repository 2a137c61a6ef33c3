import Mathlib.Data.List.Forall2
import Mathlib.Data.List.Permutation
import WidgetJsx.CommandLine.Arguments
import WidgetJsx.Proofs.NumberText

/-! What a command line asks for. Each of its arguments, or two of them together, spell a setting; reading
one is setting it, and so the whole command line is read as all its settings, one after the other. -/

namespace WidgetJsx.CommandLine

/-- What is set by an argument, or by two. -/
inductive Setting where
  | input (path : String)
  | flag (name : String)
  | option (name value : String)
deriving DecidableEq, Repr

def flagNames : List String := ["json", "include-imports", "list-widgets"]

def optionNames : List String := ["indent-size", "log"]

namespace Setting

/-- Sets an invocation; none if what it sets is set already, or if there is no such setting. -/
def set? (i : Invocation) : Setting → Option Invocation
  | input path => i.setInput? path
  | flag name => i.setFlag? name
  | option name value => (Invocation.option? name).bind fun set => set i value

/-- The arguments that a setting may be written as. -/
inductive Spells : Setting → List String → Prop
  | input {path : String} : Form.ofString path = .value path → Spells (.input path) [path]
  | flag {name : String} : name ∈ flagNames → Spells (.flag name) ["--" ++ name]
  | apart {name value : String} : name ∈ optionNames → Form.ofString value = .value value →
      Spells (.option name value) ["--" ++ name, value]
  | joined {name value : String} : name ∈ optionNames →
      Spells (.option name value) ["--" ++ name ++ "=" ++ value]

end Setting

/-- How an option is written behind its minus signs. -/
def longText (name : String) : Option String → List Char
  | none => name.toList
  | some value => name.toList ++ '=' :: value.toList

theorem Form.ofString_long {s name : String} {value? : Option String} (hne : name ≠ "")
    (h : '=' ∉ name.toList) (hs : s.toList = '-' :: '-' :: longText name value?) :
    Form.ofString s = .long name value? := by
  have hall : ∀ x ∈ name.toList, decide (x ≠ '=') = true := fun x hx =>
    decide_eq_true fun he => h (he ▸ hx)
  have hcons : ∃ c cs, longText name value? = c :: cs := by
    have hn : name.toList ≠ [] := fun hn => hne (String.toList_eq_nil_iff.mp hn)
    apply List.exists_cons_of_ne_nil
    cases value? with
    | none => exact hn
    | some value => exact List.append_ne_nil_of_left_ne_nil hn _
  obtain ⟨c, cs, hc⟩ := hcons
  rw [ofString, hs, hc]
  simp only
  rw [← hc]
  cases value? with
  | none =>
    rw [longText, List.takeWhile_eq_self_iff.mpr hall, List.dropWhile_eq_nil_iff.mpr hall,
      String.ofList_toList]
  | some value =>
    have ht : (name.toList ++ '=' :: value.toList).takeWhile (· ≠ '=') = name.toList :=
      Expression.takeWhile_append_eq hall (by simp)
    have hd : (name.toList ++ '=' :: value.toList).dropWhile (· ≠ '=') = '=' :: value.toList := by
      rw [List.dropWhile_append_of_pos hall, List.dropWhile_cons_of_neg (by simp)]
    rw [longText, ht, hd, String.ofList_toList]
    simp only [String.ofList_toList]

section

variable {i : Invocation} {rest : List String}

theorem read_input {path : String} (h : Form.ofString path = .value path) :
    read i (path :: rest) = match i.setInput? path with
      | some i => read i rest
      | none => .refuse := by
  cases hi : i.setInput? path with
  | none => simp only [read, h, hi]
  | some j => simp only [read, h, hi]

theorem read_flag {name s : String} (hname : name ∈ flagNames) (h : Form.ofString s = .long name none) :
    read i (s :: rest) = match i.setFlag? name with
      | some i => read i rest
      | none => .refuse := by
  simp only [flagNames, List.mem_cons, List.not_mem_nil, or_false] at hname
  rw [read, h]
  rcases hname with rfl | rfl | rfl <;> rfl

theorem read_joined {name value s : String} (hname : name ∈ optionNames)
    (h : Form.ofString s = .long name (some value)) :
    read i (s :: rest) = match (Setting.option name value).set? i with
      | some i => read i rest
      | none => .refuse := by
  simp only [optionNames, List.mem_cons, List.not_mem_nil, or_false] at hname
  rw [read, h]
  rcases hname with rfl | rfl <;> rfl

theorem read_apart {name value s : String} (hname : name ∈ optionNames)
    (h : Form.ofString s = .long name none) (hvalue : Form.ofString value = .value value) :
    read i (s :: value :: rest) = match (Setting.option name value).set? i with
      | some i => read i rest
      | none => .refuse := by
  simp only [optionNames, List.mem_cons, List.not_mem_nil, or_false] at hname
  rw [read, h]
  rcases hname with rfl | rfl
  · simp only [Invocation.option?, hvalue]
    rfl
  · simp only [Invocation.option?, hvalue]
    rfl

theorem read_spelled {setting : Setting} {spelled : List String} (h : setting.Spells spelled) :
    read i (spelled ++ rest) = match setting.set? i with
      | some i => read i rest
      | none => .refuse := by
  have hflag : ∀ name ∈ flagNames, name ≠ "" ∧ '=' ∉ name.toList := by decide
  have hoption : ∀ name ∈ optionNames, name ≠ "" ∧ '=' ∉ name.toList := by decide
  have hdashes (text : String) : ("--" ++ text).toList = '-' :: '-' :: text.toList := by
    rw [String.toList_append]
    rfl
  cases h with
  | input h => exact read_input h
  | @flag name hname =>
    obtain ⟨hne, hequals⟩ := hflag name hname
    exact read_flag hname (Form.ofString_long hne hequals (hdashes name))
  | @apart name value hname hvalue =>
    obtain ⟨hne, hequals⟩ := hoption name hname
    exact read_apart hname (Form.ofString_long hne hequals (hdashes name)) hvalue
  | @joined name value hname =>
    obtain ⟨hne, hequals⟩ := hoption name hname
    refine read_joined hname (Form.ofString_long hne hequals ?_)
    rw [String.append_assoc, String.append_assoc, hdashes, String.toList_append, String.toList_append]
    rfl

/-- A command line is read as all its settings. -/
theorem read_settings {settings : List Setting} {spelled : List (List String)}
    (h : List.Forall₂ Setting.Spells settings spelled) :
    read i spelled.flatten = match settings.foldlM Setting.set? i with
      | some i => .run i
      | none => .refuse := by
  induction h generalizing i with
  | nil => rfl
  | @cons setting arguments settings spelled hspells _ ih =>
    rw [List.flatten_cons, read_spelled hspells, List.foldlM_cons]
    cases setting.set? i with
    | none => rfl
    | some i => exact ih

end

section

variable {n : Nat}

theorem exists_digits (n : Nat) : ∃ c cs, (toString n).toList = c :: cs ∧
    (∀ d ∈ c :: cs, d.isDigit = true) ∧ Decimal.ofDigits (c :: cs) = n := by
  obtain ⟨c, cs, hc⟩ := List.exists_cons_of_ne_nil (@Nat.toDigits_ne_nil n 10)
  refine ⟨c, cs, ?_, ?_, ?_⟩
  · rw [Nat.toString_eq_repr, Nat.toList_repr, hc]
  · rw [← hc]
    exact Binary64.Layout.isDigit_of_mem_toDigits
  · rw [← hc, Decimal.ofDigits_toDigits]

theorem ofString_toString (n : Nat) : Form.ofString (toString n) = .value (toString n) := by
  obtain ⟨c, cs, hl, hdigits, -⟩ := exists_digits n
  have hminus : ∀ ds, c :: cs ≠ '-' :: ds := by
    intro ds he
    exact absurd (hdigits '-' (he ▸ List.mem_cons_self)) (by decide)
  unfold Form.ofString
  rw [hl]
  split
  · exact absurd ‹_› (hminus _)
  · exact absurd ‹_› (hminus _)
  · exact absurd ‹_› (hminus _)
  · rfl

theorem readNumber?_toString (hn : n ≤ numberBound) : readNumber? (toString n) = some n := by
  obtain ⟨c, cs, hl, hdigits, hvalue⟩ := exists_digits n
  have hall : (c :: cs).all Char.isDigit = true := List.all_eq_true.mpr hdigits
  have hfold : (c :: cs).foldl (fun n c => 10 * n + (c.toNat - '0'.toNat)) 0 = n :=
    (Decimal.ofDigits_eq _).symm.trans hvalue
  unfold readNumber?
  rw [hl]
  split
  · rename_i he
    exact absurd (hdigits '+' (he ▸ List.mem_cons_self)) (by decide)
  · simp only [List.isEmpty_cons, hall, hfold, if_pos hn, Bool.not_true, Bool.or_self,
      Bool.false_eq_true, if_false]

theorem Setting.set?_unit {i : Invocation} (hi : i.unit? = none) (hn : n ≤ numberBound) :
    (Setting.option "indent-size" (toString n)).set? i = some { i with unit? := some n } := by
  change i.setUnit? (toString n) = _
  rw [Invocation.setUnit?, hi, readNumber?_toString hn]

end

/-- The settings that ask for imports, or not, and for a unit. -/
def flags (imports : Bool) (unit : Nat) : List Setting :=
  (if imports then [.flag "include-imports"] else []) ++ [.option "indent-size" (toString unit)]

/-- The way to write them that needs no equals sign. -/
theorem spells_flags (imports : Bool) (unit : Nat) : List.Forall₂ Setting.Spells (flags imports unit)
    ((if imports then [["--include-imports"]] else []) ++ [["--indent-size", toString unit]]) := by
  have hunit : Setting.Spells (.option "indent-size" (toString unit)) ["--indent-size", toString unit] :=
    .apart (by decide) (ofString_toString unit)
  cases imports with
  | true => exact .cons (.flag (by decide)) (.cons hunit .nil)
  | false => exact .cons hunit .nil

/-- They are read alike in either order, and however they are written. -/
theorem ofArguments_flags {imports : Bool} {unit : Nat} (hunit : unit ≤ numberBound)
    {settings : List Setting} {spelled : List (List String)} (hperm : settings.Perm (flags imports unit))
    (h : List.Forall₂ Setting.Spells settings spelled) :
    Command.ofArguments spelled.flatten =
      .run ⟨none, false, imports, false, some unit, none⟩ := by
  have hset : settings.foldlM Setting.set? .empty =
      some ⟨none, false, imports, false, some unit, none⟩ := by
    have honce (i : Invocation) (hi : i.unit? = none) := Setting.set?_unit hi hunit
    have hmem := List.mem_permutations'.mpr hperm
    cases imports with
    | true =>
      have hlist : (flags true unit).permutations' =
        [[.flag "include-imports", .option "indent-size" (toString unit)],
          [.option "indent-size" (toString unit), .flag "include-imports"]] := rfl
      simp only [hlist, List.mem_cons, List.not_mem_nil, or_false] at hmem
      rcases hmem with rfl | rfl
      · have hlast := honce { Invocation.empty with includeImports := true } rfl
        exact (bind_pure _).trans hlast
      · rw [List.foldlM_cons, honce .empty rfl]
        rfl
    | false =>
      obtain rfl := List.perm_singleton.mp hperm
      rw [List.foldlM_cons, honce .empty rfl]
      rfl
  rw [Command.ofArguments, read_settings h, hset]

end WidgetJsx.CommandLine
