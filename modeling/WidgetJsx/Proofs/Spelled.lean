import WidgetJsx.Proofs.Agreement
import WidgetJsx.Proofs.Indentation
import WidgetJsx.Proofs.WidgetList

/-! Calls that are spelled out: a name, and arguments between brackets, with a comma and a blank between any
two. Numbers, names and such calls are read as the same value wherever they are arguments, so that a call is
read as its arguments say. -/

namespace WidgetJsx

open Expression Text

section

variable {u rest : List Char}

theorem CommaNext.keywordLength_eq (h : CommaNext rest) : keywordLength rest = 0 := by
  rcases h with rfl | h
  · rfl
  · obtain ⟨cs, rfl⟩ := List.head?_eq_some_iff.mp h
    exact keywordLength_cons (by decide) cs

theorem CommaNext.head?_ne (h : CommaNext rest) {c : Char} (hc : c ≠ ',') : rest.head? ≠ some c := by
  rcases h with rfl | h
  · simp
  · rw [h]
    exact fun he => hc (Option.some.inj he).symm

theorem Expression.IsName.trimmed (h : IsName u) : Trimmed u :=
  ⟨fun c hc => isBlank_eq_false_of_isNameChar (h.isNameChar c (List.mem_of_mem_head? hc)),
    fun c hc => isBlank_eq_false_of_isNameChar (h.isNameChar c (List.mem_of_getLast? hc))⟩

/-- What is neither a call nor a path nor a list is raw. -/
theorem compoundForm_raw {s : Cursor} (hcall : (opening (unworded s)).next? ≠ some '(')
    (hdot : '.' ∉ (unworded s).ahead.take (pathLength (unworded s).ahead))
    (hlist : (unworded s).next? ≠ some '[') (htyped : (unworded s).next? ≠ some '<') :
    compoundForm s (keywordLength s.ahead) =
      .ok (.raw (String.ofList (trim ((unworded s).ahead.take
          (rawLength (unworded s).previous (unworded s).ahead)))),
        keywordLength s.ahead + rawLength (unworded s).previous (unworded s).ahead) := by
  simp only [compoundForm, show s.forward (keywordLength s.ahead) = unworded s from rfl, opening_eq]
  rw [if_neg fun h => hcall h.2, if_neg (by simpa using hdot), if_neg hlist, if_neg htyped]
  rfl

/-- Nothing is read behind a keyword that stands alone. -/
theorem readForm_keyword {word : String} (hw : word ∈ keywords) (hr : CommaNext rest) (behind : List Char) :
    readForm ⟨behind, word.toList ++ rest⟩ = .ok (.raw "", word.toList.length) := by
  have hbreaks : Breaks rest := breaks_of_separator hr.divided
  have hwords : ∀ word ∈ keywords, word.toList ≠ ['r'] ∧
      ∀ other ∈ ["true", "false"], word.toList ≠ other.toList := by decide
  have hk : Keyword rest (word.toList ++ []) := .word hw .nil hbreaks.ends
  rw [List.append_nil] at hk
  obtain ⟨hl, hu⟩ := unworded_append hk (solid_of_separator hr.divided) hr.keywordLength_eq behind
  have hcompound := compound_of_isName (isName_of_mem_keywords word hw) hbreaks.ends
    (fun he => absurd he (hwords word hw).1) (hwords word hw).2 behind
  have hraw : rawLength ((word.toList.reverse ++ behind).headD '\n') rest = 0 :=
    hr.rawLength_eq (u := []) (.here _ _)
  have hpath : pathLength rest = 0 := by
    rcases hr with rfl | h
    · rfl
    · obtain ⟨cs, rfl⟩ := List.head?_eq_some_iff.mp h
      exact pathLength_cons (by decide) cs
  have hopening : opening ⟨word.toList.reverse ++ behind, rest⟩ = ⟨word.toList.reverse ++ behind, rest⟩ := by
    have hgap : triviaLength rest = 0 := solid_of_separator hr.divided
    rw [opening]
    simp only [hpath, List.drop_zero, hgap, Nat.add_zero, Cursor.forward_zero]
  have hform := @compoundForm_raw ⟨behind, word.toList ++ rest⟩
  simp only [hu, hl, hopening, hpath, Cursor.next?, Cursor.previous, hraw] at hform
  rw [readForm_compound hcompound]
  simp only [hl]
  exact hform (hr.head?_ne (by decide)) (by simp) (hr.head?_ne (by decide)) (hr.head?_ne (by decide))

theorem readForm_name (hn : IsName u) (hu : ∀ word ∈ reserved, u ≠ word.toList) (hr : CommaNext rest)
    (behind : List Char) : readForm ⟨behind, u ++ rest⟩ = .ok (.raw (String.ofList u), u.length) := by
  have hbreaks : Breaks rest := breaks_of_separator hr.divided
  have hreserved : ∀ word ∈ ["true", "false"], word ∈ reserved := by decide
  have hcompound := compound_of_isName hn hbreaks.ends (fun _ q hq => (hbreaks q hq).2.2)
    (fun word hw => hu word (hreserved word hw)) behind
  have hkey : keywordLength (u ++ rest) = 0 :=
    hn.keywordLength_eq_zero hbreaks.ends fun word hw => hu word (mem_reserved_of_mem_keywords hw)
  have hunworded : unworded ⟨behind, u ++ rest⟩ = ⟨behind, u ++ rest⟩ := by
    rw [unworded]
    simp only [hkey, Cursor.forward_zero]
  obtain ⟨hpath, -, hopening⟩ := @opening_append [u] u [] rest (pathOf_singleton hn) .nil hbreaks
    (solid_of_separator hr.divided) behind
  rw [List.nil_append] at hpath hopening
  have hraw : rawLength (behind.headD '\n') (u ++ rest) = u.length :=
    hr.rawLength_eq ((indifferent_rawStep 0).word (fun c hc => .inl (hn.isNameChar c hc))
      (hbreaks.clear u) behind)
  have htrim : trim u = u := trim_eq_self hn.trimmed
  have hnext {c : Char} (hc : isNameChar c = false) : (u ++ rest).head? ≠ some c := by
    rw [List.head?_append_of_ne_nil u hn.ne_nil]
    intro he
    rw [hn.isNameChar c (List.mem_of_mem_head? he)] at hc
    cases hc
  have hform := @compoundForm_raw ⟨behind, u ++ rest⟩
  simp only [hunworded, hkey, hopening, hpath, List.take_left, Cursor.next?, Cursor.previous, hraw, htrim,
    Nat.zero_add] at hform
  rw [readForm_compound hcompound]
  simp only [hkey]
  refine hform (hr.head?_ne (by decide)) (fun hdot => ?_) (hnext (by decide)) (hnext (by decide))
  exact absurd (hn.isNameChar '.' hdot) (by decide)

end

/-- Between separators the text is read as the value, whatever is around it. -/
structure Argument.Plain (value : Argument Widget) (u : List Char) : Prop where
  firm : Firm u
  keyless {rest : List Char} : CommaNext rest → Keyless (u ++ rest)
  crosses {behind rest : List Char} : isNameChar (behind.headD '\n') = false → Divided rest →
    Crosses behind u rest
  reads {rest : List Char} (descend : Call → Except Fault Widget) (behind : List Char) : CommaNext rest →
    ∃ form, readForm ⟨behind, u ++ rest⟩ = .ok (form, u.length) ∧ readArgument descend form = .ok value

namespace Expression

variable {u : List Char}

theorem IsNumber.plain (h : IsNumber u) : (Argument.number (String.ofList u)).Plain u where
  firm := h.firm
  keyless hr := h.keyless (breaks_of_separator hr.divided)
  crosses _ _ := h.crosses _ _
  reads _ behind hr := ⟨_, h.readForm_eq (breaks_of_separator hr.divided) behind, rfl⟩

theorem IsName.plain_of_reads (h : IsName u) {value : Argument Widget}
    (hreads : ∀ {rest : List Char} (descend : Call → Except Fault Widget) (behind : List Char),
      CommaNext rest → ∃ form, readForm ⟨behind, u ++ rest⟩ = .ok (form, u.length) ∧
        readArgument descend form = .ok value) : value.Plain u where
  firm := h.firm
  keyless hr := by
    have hgap : Trivia [] := .nil
    exact h.keyless hgap (breaks_of_separator hr.divided).ends (solid_of_separator hr.divided)
      (hr.head?_ne (by decide))
  crosses _ hr := h.crosses (breaks_of_separator hr) _
  reads := hreads

end Expression

namespace Argument

/-- What a number or a name is read as. Behind a keyword nothing is left to be read. -/
def ofWord (word : String) : Argument Widget :=
  if 0 < numberLength word.toList then .number word
  else if word = "true" then .boolean true
  else if word = "false" then .boolean false
  else if word ∈ keywords then .raw ""
  else .raw word

/-- A number or a name. -/
def IsWord (word : String) : Prop := IsNumber word.toList ∨ IsName word.toList

variable {word : String}

theorem numberLength_pos_iff (h : IsWord word) : 0 < numberLength word.toList ↔ IsNumber word.toList := by
  constructor
  · intro hpos
    refine h.resolve_right fun hn => ?_
    have hl := hn.numberLength_eq_zero []
    rw [List.append_nil] at hl
    omega
  · intro hn
    have hl := hn.numberLength_eq breaks_nil
    rw [List.append_nil] at hl
    exact hl ▸ List.length_pos_iff.mpr hn.firm.ne_nil

theorem ofWord_of_isNumber (h : IsNumber word.toList) : ofWord word = .number word :=
  if_pos ((numberLength_pos_iff (.inl h)).mpr h)

theorem plain_ofWord (h : IsWord word) : (ofWord word).Plain word.toList := by
  unfold ofWord
  split
  · rename_i hpos
    have hplain := ((numberLength_pos_iff h).mp hpos).plain
    rwa [String.ofList_toList] at hplain
  have hn : IsName word.toList := h.resolve_left fun hn => ‹¬ _› ((numberLength_pos_iff h).mpr hn)
  have hboolean (value : Bool) (hw : word = toString value) :
      (Argument.boolean value).Plain word.toList := by
    subst hw
    exact hn.plain_of_reads fun _ behind hr =>
      ⟨_, readForm_boolean value (breaks_of_separator hr.divided) behind, rfl⟩
  split
  · exact hboolean true ‹_›
  split
  · exact hboolean false ‹_›
  split
  · rename_i hw
    exact hn.plain_of_reads fun _ behind hr => ⟨_, readForm_keyword hw hr behind, rfl⟩
  · rename_i htrue hfalse hkeyword
    have hu : ∀ other ∈ reserved, word.toList ≠ other.toList := by
      have hcases : ∀ other ∈ reserved, other ∈ keywords ∨ other = "true" ∨ other = "false" := by decide
      intro other ho he
      obtain rfl := String.toList_inj.mp he
      rcases hcases word ho with hk | hk | hk
      · exact hkeyword hk
      · exact htrue hk
      · exact hfalse hk
    refine hn.plain_of_reads fun _ behind hr => ⟨_, readForm_name hn hu hr behind, ?_⟩
    rw [String.ofList_toList]
    rfl

theorem text?_ofWord (word : String) :
    ∃ text, (ofWord word).text? = some text ∧ text.toList.Sublist word.toList := by
  unfold ofWord
  split
  · exact ⟨word, rfl, .refl _⟩
  split
  · exact ⟨"true", rfl, by rw [‹word = "true"›]⟩
  split
  · exact ⟨"false", rfl, by rw [‹word = "false"›]⟩
  split
  · exact ⟨"", rfl, List.nil_sublist _⟩
  · exact ⟨word, rfl, .refl _⟩

end Argument

namespace Entry

/-- The argument is a plain text, behind its key if it has one. -/
inductive Plain : Entry → List Char → Prop
  | positional {value : Argument Widget} {u : List Char} : value.Plain u → Plain ⟨none, value⟩ u
  | named {key : String} {value : Argument Widget} {u : List Char} : IsName key.toList → value.Plain u →
      Plain ⟨some key, value⟩ (key.toList ++ ':' :: ' ' :: u)

variable {entry : Entry} {entries : List Entry} {u behind rest : List Char} {us : List (List Char)}

theorem plain_named {key text : String} {value : Argument Widget} (hk : IsName key.toList)
    (h : value.Plain text.toList) : Plain ⟨some key, value⟩ (key ++ ": " ++ text).toList := by
  have htext : (key ++ ": " ++ text).toList = key.toList ++ ':' :: ' ' :: text.toList := by simp
  exact htext ▸ .named hk h

theorem Plain.firm (h : entry.Plain u) : Firm u := by
  cases h with
  | positional h => exact h.firm
  | named hk _ => exact hk.firm.append _

theorem Plain.crosses (h : entry.Plain u) (hb : isNameChar (behind.headD '\n') = false)
    (hr : Divided rest) : Crosses behind u rest := by
  cases h with
  | positional h => exact h.crosses hb hr
  | @named key value u hk h =>
    have hcolon : Breaks (':' :: ' ' :: u ++ rest) := breaks_cons (by decide) (by decide) (by decide) _
    have hmarks : Mark ':' ∧ Mark ' ' := by decide
    have hvalue : Crosses (' ' :: ':' :: (key.toList.reverse ++ behind)) u rest :=
      h.crosses (show isNameChar ' ' = false by decide) hr
    exact (hk.crosses hcolon behind).append
      ((hmarks.1.crosses _ _).cons ((hmarks.2.crosses _ _).cons hvalue))

theorem Plain.readEntry_eq (h : entry.Plain u) (descend : Call → Except Fault Widget) (hr : CommaNext rest)
    (behind : List Char) : readEntry descend ⟨behind, u ++ rest⟩ = .ok (entry, u.length) := by
  cases h with
  | @positional value u h =>
    obtain ⟨form, hf, hv⟩ := h.reads descend behind hr
    rw [WidgetJsx.readEntry_eq, entryLead_eq_none (h.keyless hr)]
    simp only [Cursor.forward_zero, Nat.zero_add]
    rw [hf]
    change (readArgument descend form >>= _) = _
    rw [hv]
    rfl
  | @named key value u hk h =>
    have hgap : Trivia [' '] := .fill (by decide) .nil
    obtain ⟨form, hf, hv⟩ := h.reads descend ((key.toList ++ [':', ' ']).reverse ++ behind) hr
    have hentry := readEntry_keyed hk .nil hgap (h.firm.append rest) hf hv
    have hsame : key.toList ++ ':' :: ' ' :: u ++ rest = key.toList ++ ([] ++ ':' :: [' ']) ++ (u ++ rest) := by
      simp
    have hlength : (key.toList ++ ':' :: ' ' :: u).length =
        (key.toList ++ ([] ++ ':' :: [' '])).length + u.length := by
      rw [← List.length_append]
      simp
    rw [hsame, hlength]
    exact hentry

theorem readAll_joined (h : List.Forall₂ Plain entries us) (descend : Call → Except Fault Widget)
    {gap : List Char} (hg : Separators gap) (found : List Entry) (behind : List Char) :
    readAll (readEntry descend) found ⟨behind, gap ++ [',', ' '].intercalate us⟩ =
      .ok (found.reverse ++ entries) := by
  induction h generalizing gap found behind with
  | nil =>
    rw [List.intercalate_nil, List.append_nil, List.append_nil]
    exact Listed.readAll_nil hg found behind
  | @cons entry u entries us hu hrest ih =>
    have hfirm := hu.firm
    cases us with
    | nil =>
      cases hrest
      have hitem := hu.readEntry_eq descend (.inl rfl) (gap.reverse ++ behind)
      have hread := Listed.readAll_cons hg hfirm.ne_nil (hfirm.append []).solid_separators hitem found
      rw [List.append_nil] at hread
      rw [List.intercalate_singleton, hread]
      have hend : Separators [] := .nil
      have hnil : readAll (readEntry descend) (entry :: found) ⟨u.reverse ++ (gap.reverse ++ behind), []⟩ =
          .ok (entry :: found).reverse := Listed.readAll_nil hend _ _
      simpa using hnil
    | cons v us =>
      have hblank : Separators [' '] := .fill (by decide) .nil
      have hmore : [',', ' '].intercalate (u :: v :: us) =
          u ++ ([] ++ ',' :: ([' '] ++ [',', ' '].intercalate (v :: us))) := rfl
      have hnext : CommaNext ([] ++ ',' :: ([' '] ++ [',', ' '].intercalate (v :: us))) := .inr rfl
      have hitem := hu.readEntry_eq descend hnext (gap.reverse ++ behind)
      rw [hmore, Listed.readAll_cons hg hfirm.ne_nil (hfirm.append _).solid_separators hitem,
        Listed.readAll_comma .nil, ih hblank]
      simp

theorem crosses_joined (h : List.Forall₂ Plain entries us) (hb : isNameChar (behind.headD '\n') = false)
    (hr : Divided rest) : Crosses behind ([',', ' '].intercalate us) rest := by
  induction h generalizing behind with
  | nil => exact crosses_nil behind rest
  | @cons entry u entries us hu hrest ih =>
    cases us with
    | nil =>
      rw [List.intercalate_singleton]
      exact hu.crosses hb hr
    | cons v us =>
      have hmarks : Mark ',' ∧ Mark ' ' := by decide
      have hmore : [',', ' '].intercalate (u :: v :: us) =
          u ++ ',' :: ' ' :: [',', ' '].intercalate (v :: us) := rfl
      have hnext : Divided (',' :: ' ' :: [',', ' '].intercalate (v :: us) ++ rest) := by
        rintro c ⟨⟩
        exact .inl rfl
      have htail : Crosses (' ' :: ',' :: (u.reverse ++ behind)) ([',', ' '].intercalate (v :: us)) rest :=
        ih (show isNameChar ' ' = false by decide)
      rw [hmore]
      exact (hu.crosses hb hnext).append
        ((hmarks.1.crosses _ _).cons ((hmarks.2.crosses _ _).cons htail))

end Entry

namespace Construction

/-- The name of a constructor that builds a value: a path that starts with no reserved word and names no
widget. -/
structure IsConstructor (name : String) : Prop where
  path : PathOf (name.toList.splitOn '.') name.toList
  unreserved : Unreserved (name.toList.splitOn '.')
  not_widget : Widget.isWidgetName name = false

instance : DecidablePred IsConstructor := fun name =>
  decidable_of_iff
    ((name.toList.splitOn '.' ≠ [] ∧ (∀ part ∈ name.toList.splitOn '.', IsName part) ∧
        name.toList = ['.'].intercalate (name.toList.splitOn '.')) ∧
      (∀ word ∈ reserved, (name.toList.splitOn '.').head? ≠ some word.toList) ∧
        Widget.isWidgetName name = false)
    ⟨fun ⟨⟨hne, hn, he⟩, hu, hw⟩ => ⟨⟨hne, hn, he⟩, hu, hw⟩,
      fun ⟨⟨hne, hn, he⟩, hu, hw⟩ => ⟨⟨hne, hn, he⟩, hu, hw⟩⟩

/-- A call with its arguments as texts. -/
def spelled (name : String) (arguments : List String) : String :=
  name ++ "(" ++ ", ".intercalate arguments ++ ")"

/-- The call is not too long to be read. -/
abbrev Fits (source : String) : Prop := source.utf8ByteSize ≤ Limits.standard.bytes

theorem toList_spelled (name : String) (arguments : List String) : (spelled name arguments).toList =
    name.toList ++ ([] ++ '(' :: ([',', ' '].intercalate (arguments.map String.toList) ++ [')'])) := by
  simp [spelled, String.toList_intercalate]

section

variable {name : String} {entries : List Entry} {arguments : List String} (hc : IsConstructor name)
  (h : List.Forall₂ Entry.Plain entries (arguments.map String.toList))

include h

theorem crosses_arguments (behind rest : List Char) :
    Crosses ('(' :: behind) ([',', ' '].intercalate (arguments.map String.toList)) (')' :: rest) :=
  Entry.crosses_joined h (show isNameChar '(' = false by decide) fun _ hc => .inr (by
    obtain rfl := Option.some.inj hc
    rfl)

include hc

theorem read_spelled (hfits : Fits (spelled name arguments)) :
    read (spelled name arguments) = .ok ⟨name, Entry.positional entries, Entry.named entries⟩ := by
  have hclosing := (crosses_arguments h [] []).closing? rfl '\n'
  have hkeyword : Keyword (name.toList ++
      ([] ++ '(' :: ([',', ' '].intercalate (arguments.map String.toList) ++ [')']))) [] := .none
  obtain ⟨rest, hr, he⟩ := readCall_written hc.path
    (fun word hw => hc.unreserved word (mem_reserved_of_mem_keywords hw)) .nil hkeyword .nil hclosing
    (.closed .nil)
  rw [List.append_nil, List.nil_append, List.nil_append, ← toList_spelled, String.ofList_toList] at hr
  have hentries := Entry.readAll_joined h (readWidget Limits.standard.depth Limits.standard.depth) .nil []
    ('(' :: ([].reverse ++ (name.toList.reverse ++ ([] ++ []).reverse)))
  exact read_eq_ok_iff.mpr ⟨hfits, _, rest, entries, hr, hentries, he, rfl⟩

/-- Such a call may itself be an argument. -/
theorem plain_spelled :
    (Argument.construction (spelled name arguments)).Plain (spelled name arguments).toList := by
  have hgap : Trivia [] := .nil
  have hkeyword : Keyword (name.toList ++
      ([] ++ '(' :: ([',', ' '].intercalate (arguments.map String.toList) ++ [')']))) [] := .none
  have htext := toList_spelled name arguments
  constructor
  · rw [htext]
    exact hc.path.firm.append _
  · intro rest _
    have hkeyless := hc.path.keyless_call hgap
      ([',', ' '].intercalate (arguments.map String.toList) ++ ')' :: rest)
    rw [htext]
    simpa using hkeyless
  · intro behind rest _ _
    rw [htext]
    exact Layout.crosses_call hc.path hgap (crosses_arguments h _ rest)
  · intro rest descend behind _
    have hclosing := (crosses_arguments h [] rest).closing? rfl '\n'
    have hread := readForm_call hc.path hc.unreserved hgap hkeyword hclosing behind
    rw [String.ofList_toList, hc.not_widget, ← htext, String.ofList_toList] at hread
    exact ⟨_, hread, rfl⟩

end

theorem getLast?_spelled (name : String) (arguments : List String) :
    (spelled name arguments).toList.getLast? = some ')' := by
  rw [toList_spelled, List.nil_append, ← List.cons_append, ← List.append_assoc, List.getLast?_concat]

theorem trimmed_toList_spelled {name : String} (h : IsConstructor name) (arguments : List String) :
    Trimmed (spelled name arguments).toList := by
  obtain ⟨c, cs, hc, hb, -⟩ := h.path.firm
  refine trimmed_of_ends ?_ hb (getLast?_spelled name arguments) (by decide)
  rw [toList_spelled, hc]
  rfl

theorem trimmed_spelled {name : String} (h : IsConstructor name) (arguments : List String) :
    trimmed (spelled name arguments) = spelled name arguments :=
  trimmed_eq_self (trimmed_toList_spelled h arguments)

theorem spelled_ne {constant : String} (h : constant.toList.getLast? ≠ some ')') (name : String)
    (arguments : List String) : spelled name arguments ≠ constant := by
  rintro rfl
  exact h (getLast?_spelled name arguments)

theorem isInfix_intercalate {u : List Char} {us : List (List Char)} (h : u ∈ us) (separator : List Char) :
    u <:+: separator.intercalate us := by
  induction us with
  | nil => exact absurd h List.not_mem_nil
  | cons v us ih =>
    cases us with
    | nil =>
      rw [List.intercalate_singleton, ← List.mem_singleton.mp h]
    | cons w us =>
      rw [List.intercalate_cons_cons]
      rcases List.mem_cons.mp h with rfl | h
      · exact ((List.prefix_append u separator).trans (List.prefix_append _ _)).isInfix
      · exact (ih h).trans (List.suffix_append _ _).isInfix

theorem isInfix_spelled {text : String} {arguments : List String} (h : text ∈ arguments) (name : String) :
    text.toList <:+: (spelled name arguments).toList := by
  rw [toList_spelled]
  refine (isInfix_intercalate (List.mem_map_of_mem h) [',', ' ']).trans ?_
  exact ((List.prefix_append _ _).isInfix.trans (List.suffix_cons _ _).isInfix).trans
    ((List.suffix_append _ _).trans (List.suffix_append _ _)).isInfix

/-- Names, all different. -/
abbrev AreKeys (keys : List String) : Prop := (∀ key ∈ keys, IsName key.toList) ∧ keys.Nodup

/-- An argument behind its key. -/
def keyed (key text : String) : String := key ++ ": " ++ text

section

variable {name : String} {arguments : List String} {value : String → Argument Widget}
  (hc : IsConstructor name)

theorem forall₂_positional (h : ∀ text ∈ arguments, (value text).Plain text.toList) :
    List.Forall₂ Entry.Plain (arguments.map fun text => ⟨none, value text⟩) (arguments.map String.toList) := by
  rw [List.forall₂_map_left_iff, List.forall₂_map_right_iff]
  exact List.forall₂_same.mpr fun text ht => .positional (h text ht)

include hc

theorem read_positional (h : ∀ text ∈ arguments, (value text).Plain text.toList)
    (hfits : Fits (spelled name arguments)) :
    read (spelled name arguments) = .ok ⟨name, arguments.map value, ∅⟩ := by
  rw [read_spelled hc (forall₂_positional h) hfits]
  simp [Entry.positional, Entry.named, List.filterMap_map]
  rfl

/-- Arguments with keys may stand in any order. -/
theorem read_keyed {fields : List (String × String)} (hk : AreKeys (fields.map Prod.fst))
    (h : ∀ field ∈ fields, (value field.2).Plain field.2.toList)
    (hperm : arguments.Perm (fields.map fun field => keyed field.1 field.2))
    (hfits : Fits (spelled name arguments)) : ∃ c, read (spelled name arguments) = .ok c ∧ c.name = name ∧
      ∀ key, c.argument? key = (fields.lookup key).map value := by
  have hplain : List.Forall₂ Entry.Plain (fields.map fun field => ⟨some field.1, value field.2⟩)
      ((fields.map fun field => keyed field.1 field.2).map String.toList) := by
    rw [List.map_map, List.forall₂_map_left_iff, List.forall₂_map_right_iff]
    exact List.forall₂_same.mpr fun field hf =>
      Entry.plain_named (hk.1 field.1 (List.mem_map_of_mem hf)) (h field hf)
  -- The entries take the order of the arguments, and then each goes with the text it is written as.
  have hcomp : Relation.Comp (List.Forall₂ Entry.Plain) List.Perm
      (fields.map fun field => ⟨some field.1, value field.2⟩) (arguments.map String.toList) :=
    ⟨_, hplain, (hperm.map String.toList).symm⟩
  rw [List.forall₂_comp_perm_eq_perm_comp_forall₂] at hcomp
  obtain ⟨entries, hentries, hplain⟩ := hcomp
  refine ⟨_, read_spelled hc hplain hfits, rfl, fun key => ?_⟩
  have hnamed : (entries.filterMap fun entry => entry.key?.map (·, entry.value)).Perm
      (fields.map fun field => (field.1, value field.2)) := by
    have hmap := hentries.symm.filterMap fun entry => entry.key?.map (·, entry.value)
    simpa [List.filterMap_map] using hmap
  have hkeys : ((fields.map fun field => (field.1, value field.2)).map Prod.fst).Nodup := by
    rw [List.map_map]
    exact hk.2
  exact (Fields.get?_ofList_of_perm hkeys hnamed key).trans (Fields.lookup_map value fields key)

end

end Construction

end WidgetJsx
