import WidgetJsx.Proofs.Display
import WidgetJsx.Proofs.Indentation
import WidgetJsx.Proofs.Tag
import WidgetJsx.Service.Reply

/-! The options of a request. They change nothing in its reply but the output, and this is what would be
written with the unit that is asked for, behind the imports: where no text has a line break in it, each
line of markup is a line of text from the start to the end of a tag. -/

namespace WidgetJsx

namespace Style

/-- Texts without line breaks. -/
def Value.SingleLine (value : Value) : Prop := ∀ s, value = .text s → '\n' ∉ s.toList

theorem isBlank_numberText {x : Binary64} {c : Char} (h : c ∈ (numberText x).toList) :
    Text.isBlank c = false := by
  have hall {s : String} (hs : s.toList.all (fun c => !Text.isBlank c) = true) (hc : c ∈ s.toList) :
      Text.isBlank c = false := by
    simpa using List.all_eq_true.mp hs c hc
  cases x with
  | nan => exact hall (by decide) h
  | infinite negative => cases negative <;> exact hall (by decide) h
  | finite negative rank =>
    rcases mem_numberText rfl h with hd | rfl | rfl
    · exact Text.isBlank_eq_false_of_isAlphanum (by simp [Char.isAlphanum, hd])
    · decide
    · decide

theorem newline_not_mem_numberText (x : Binary64) : '\n' ∉ (numberText x).toList :=
  fun hm => absurd (isBlank_numberText hm) (by decide)

theorem newline_not_mem_escaped {c : Char} (h : c ≠ '\n') : '\n' ∉ escaped c := by
  unfold escaped
  split
  · simp [h.symm]
  · simp [h.symm]

theorem newline_not_mem_value {value : Value} (h : value.SingleLine) : '\n' ∉ value.write.toList := by
  cases value with
  | number x => exact newline_not_mem_numberText x
  | text s =>
    have hw : (Value.text s).write = quoted s := rfl
    have hquote : '\n' ∉ s.toList.flatMap escaped := by
      intro hm
      obtain ⟨c, hc, hm⟩ := List.mem_flatMap.mp hm
      have hne : c ≠ '\n' := by
        rintro rfl
        exact h s rfl hc
      exact newline_not_mem_escaped hne hm
    have ho : '\n' ∉ quotation.opener := by decide
    have hc : '\n' ∉ quotation.closer := by decide
    rw [hw, toList_quoted]
    simp only [List.mem_append, not_or]
    exact ⟨⟨ho, hquote⟩, hc⟩

theorem newline_not_mem_of_isAttribute {key : String} (h : IsAttribute key) : '\n' ∉ key.toList :=
  fun hm => absurd (isAlphanum_of_mem h _ hm) (by decide)

theorem newline_not_mem_entryText {entry : String × Value} (hk : '\n' ∉ entry.1.toList)
    (hv : entry.2.SingleLine) : '\n' ∉ entryText entry := by
  have hvalue := newline_not_mem_value hv
  simp [entryText, hk, hvalue]

theorem newline_not_mem_tailText {entries : List (String × Value)}
    (h : ∀ entry ∈ entries, '\n' ∉ entry.1.toList ∧ entry.2.SingleLine) : '\n' ∉ tailText entries := by
  induction entries with
  | nil => decide
  | cons entry entries ih =>
    obtain ⟨hk, hv⟩ := h entry List.mem_cons_self
    have hentry := newline_not_mem_entryText hk hv
    have hrest := ih fun entry hm => h entry (List.mem_cons_of_mem _ hm)
    simp [tailText, hentry, hrest]

end Style

namespace Element

/-- No text of the element itself has a line break in it, neither the one it shows nor one in its
style. -/
structure SingleLine (e : Element) : Prop where
  text : ∀ text, e.text? = some text → '\n' ∉ text.toList
  style : ∀ entry ∈ e.style.entries, entry.2.SingleLine

variable {e : Element}

theorem newline_not_mem_styleText {style : Style} (hk : ∀ key ∈ style.keys, '\n' ∉ key.toList)
    (hv : ∀ entry ∈ style.entries, entry.2.SingleLine) : '\n' ∉ (styleText style).toList := by
  obtain ⟨entries⟩ := style
  cases entries with
  | nil => exact List.not_mem_nil
  | cons entry entries =>
    have hentry := Style.newline_not_mem_entryText (hk _ List.mem_cons_self)
      (hv entry List.mem_cons_self)
    have hrest : '\n' ∉ Style.tailText entries := Style.newline_not_mem_tailText fun entry hm =>
      ⟨hk _ (List.mem_cons_of_mem _ (List.mem_map_of_mem hm)), hv entry (List.mem_cons_of_mem _ hm)⟩
    rw [toList_styleText]
    simp [hentry, hrest]

theorem SingleLine.newline_shownText (h : e.SingleLine) : '\n' ∉ e.shownText.toList := by
  rcases e.shownText_cases with he | he
  · rw [he]
    exact List.not_mem_nil
  · exact h.text _ he

theorem tight_of_tag {level : Nat} {text : String} {inner : List Char}
    (ht : text.toList = '<' :: (inner ++ ['>'])) (hn : '\n' ∉ inner) : Line.Tight ⟨level, text⟩ := by
  have hnewline : '\n' ∉ text.toList := by
    rw [ht]
    simp [hn]
  have hfirst : text.toList.head? = some '<' := by
    rw [ht]
    rfl
  have hlast : text.toList.getLast? = some '>' := by
    rw [ht, ← List.cons_append, List.getLast?_concat]
  exact ⟨hnewline, trimmed_of_ends hfirst (by decide) hlast (by decide)⟩

theorem tight_lines (hs : ∀ n ∈ e.nodes, n.SingleLine)
    (hk : ∀ n ∈ e.nodes, ∀ key ∈ n.style.keys, '\n' ∉ key.toList) (level : Nat) : ∀ line ∈ e.lines level, line.Tight := by
  rintro ⟨level', text⟩ hm
  obtain ⟨n, hn, hl⟩ : ∃ n ∈ e.nodes, n.LineOf text := exists_of_mem_lines level hm
  clear hm
  have hname : '\n' ∉ n.component.name.toList := fun hm =>
    absurd (n.component.isAlphanum_of_mem_name _ hm) (by decide)
  have hstyle := newline_not_mem_styleText (hk n hn) (hs n hn).style
  cases hl with
  | empty =>
    refine @tight_of_tag level' _ (n.component.name.toList ++ (styleText n.style).toList ++ [' ', '/'])
      (by simp [opening]) ?_
    simp [hname, hstyle]
  | text =>
    refine @tight_of_tag level' _ (n.component.name.toList ++ (styleText n.style).toList ++ '>' ::
      (n.shownText.toList ++ '<' :: '/' :: n.component.name.toList)) (by simp [opening, closing]) ?_
    simp [hname, hstyle, (hs n hn).newline_shownText]
  | start =>
    refine @tight_of_tag level' _ (n.component.name.toList ++ (styleText n.style).toList)
      (by simp [opening]) ?_
    simp [hname, hstyle]
  | stop =>
    refine @tight_of_tag level' _ ('/' :: n.component.name.toList) (by simp [closing]) ?_
    simp [hname]

theorem singleLine_ofWidget {w : Widget} (ht : ∀ text, w.text? = some text → '\n' ∉ text.toList)
    (hs : ∀ entry ∈ w.style.entries, entry.2.SingleLine) : (ofWidget w).SingleLine := by
  refine ⟨fun text he => ?_, fun entry hm => ?_⟩
  · rw [ofWidget_text?] at he
    split at he
    · exact ht text he
    · cases he
  · rw [ofWidget] at hm
    exact hs entry hm

theorem named_of_mem_nodes {w : Widget} : ∀ n ∈ (ofWidget w).nodes, n.style.Named := by
  intro n hn
  rw [nodes_ofWidget] at hn
  obtain ⟨v, -, rfl⟩ := List.mem_map.mp hn
  rw [ofWidget]
  exact v.named_style

theorem newline_not_mem_keys {style : Style} (h : style.Named) : ∀ key ∈ style.keys, '\n' ∉ key.toList := by
  intro key hk
  obtain ⟨entry, hm, rfl⟩ := List.mem_map.mp hk
  exact Style.newline_not_mem_of_isAttribute (h entry hm)

end Element

namespace Service

open Element

/-- The imports, as lines that are not indented. -/
def importList : List Line := [⟨0, "import React from 'react';"⟩,
  ⟨0, "import \x7b View, Text, StyleSheet \x7d from 'react-native';"⟩]

theorem join_importList (unit : Nat) :
    String.join (importList.map (Line.write unit)) = importLines := by
  simp only [importList, List.map_cons, List.map_nil, Line.write, Nat.zero_mul]
  rfl

theorem tight_importList : ∀ line ∈ importList, line.Tight := by
  intro line hm
  simp only [importList, List.mem_cons, List.not_mem_nil, or_false] at hm
  rcases hm with rfl | rfl
  · exact ⟨by decide, @trimmed_of_ends 'i' ';' _ (by decide) (by decide) (by decide) (by decide)⟩
  · exact ⟨by decide, @trimmed_of_ends 'i' ';' _ (by decide) (by decide) (by decide) (by decide)⟩

theorem present_eq {w : Widget} (options : Options)
    (h : ∀ n ∈ (ofWidget w).nodes, n.SingleLine) : present options (.ofWidget w) =
      (if options.includeImports then importLines else "") ++ (ofWidget w).markup options.unit 0 := by
  have htight := tight_lines h (fun n hn => newline_not_mem_keys (named_of_mem_nodes n hn)) 0
  unfold present document
  cases options.includeImports with
  | false =>
    simp only [Bool.false_eq_true, if_false, String.empty_append]
    exact reindent_written htight options.unit
  | true =>
    have hall : ∀ line ∈ importList ++ (ofWidget w).lines 0, line.Tight := by
      intro line hm
      rcases List.mem_append.mp hm with hm | hm
      · exact tight_importList line hm
      · exact htight line hm
    have hjoin (unit : Nat) :
        String.join ((importList ++ (ofWidget w).lines 0).map (Line.write unit)) =
          importLines ++ (ofWidget w).markup unit 0 := by
      rw [List.map_append, String.join_append, join_importList]
      rfl
    have hr := reindent_written hall options.unit
    rw [hjoin, hjoin] at hr
    exact hr

theorem answer_of_read {code : String} {w : Widget} (h : Widget.read .standard code = .ok w)
    (options : Options) : Query.answer ⟨code, options⟩ =
      .converted (present options (.ofWidget w)) (.ofWidget w) := by
  unfold Query.answer
  rw [Conversion.read_eq, h]
  rfl

theorem answer_of_fault {code : String} {fault : Expression.Fault}
    (h : Widget.read .standard code = .error fault) (options : Options) :
    Query.answer ⟨code, options⟩ = .unread fault := by
  unfold Query.answer
  rw [Conversion.read_eq, h]
  rfl

/-- The output is what would be written with the unit that is asked for, behind the imports if these
are asked for, and the rest of a reply does not depend on the options. -/
theorem answer_options (code : String) (options : Options) :
    (∀ output c, Query.answer ⟨code, options⟩ = .converted output c →
      (∀ n ∈ c.element.nodes, n.SingleLine) → output =
        (if options.includeImports then importLines else "") ++ c.element.markup options.unit 0) ∧
    ∀ others : Options,
      (Query.answer ⟨code, options⟩).succeeded = (Query.answer ⟨code, others⟩).succeeded ∧
      (Query.answer ⟨code, options⟩).error? = (Query.answer ⟨code, others⟩).error? ∧
      (Query.answer ⟨code, options⟩).metadata? = (Query.answer ⟨code, others⟩).metadata? := by
  cases hr : Widget.read .standard code with
  | error fault =>
    refine ⟨fun output c h => ?_, fun others => ?_⟩
    · rw [answer_of_fault hr] at h
      cases h
    · rw [answer_of_fault hr, answer_of_fault hr]
      exact ⟨rfl, rfl, rfl⟩
  | ok w =>
    refine ⟨fun output c h hs => ?_, fun others => ?_⟩
    · rw [answer_of_read hr] at h
      obtain ⟨rfl, rfl⟩ := Reply.converted.inj h
      exact present_eq options hs
    · rw [answer_of_read hr, answer_of_read hr]
      exact ⟨rfl, rfl, rfl⟩

theorem answer_options_row :
    let w : Widget := ⟨"Row", ⟨[]⟩, none,
      .children [⟨"Text", ⟨[]⟩, some "a", .none⟩, ⟨"Text", ⟨[]⟩, some "b", .none⟩]⟩
    (∀ n ∈ (ofWidget w).nodes, n.SingleLine) ∧
      Query.answer ⟨"Row(children: [Text('a'), Text('b')])", ⟨true, 4⟩⟩ =
        .converted (importLines ++ (ofWidget w).markup 4 0) (.ofWidget w) := by
  intro w
  have htext {text : String} (ht : '\n' ∉ text.toList) :
      (ofWidget ⟨"Text", ⟨[]⟩, some text, .none⟩).SingleLine := by
    refine singleLine_ofWidget (fun s hs => ?_) fun entry hm => absurd hm List.not_mem_nil
    obtain rfl := Option.some.inj hs
    exact ht
  have hs : ∀ n ∈ (ofWidget w).nodes, n.SingleLine := by
    intro n hn
    rw [nodes_ofWidget, Widget.nested_eq] at hn
    simp only [w, Content.toList, List.flatMap_cons, List.flatMap_nil, List.append_nil,
      Widget.nested_eq, List.cons_append, List.nil_append, List.map_cons, List.map_nil,
      List.mem_cons, List.not_mem_nil, or_false] at hn
    rcases hn with rfl | rfl | rfl
    · refine singleLine_ofWidget (fun text ht => absurd ht.symm (Option.some_ne_none text))
        fun entry hm => ?_
      obtain rfl : entry = ("flexDirection", .text "row") := List.mem_singleton.mp hm
      intro s h
      obtain rfl := Style.Value.text.inj h
      decide
    · exact htext (by decide)
    · exact htext (by decide)
  have h := answer_of_read Conversion.read_row ⟨true, 4⟩
  have ho := (answer_options _ ⟨true, 4⟩).1 _ _ h hs
  refine ⟨hs, ?_⟩
  rw [h, ho]
  rfl

end Service

end WidgetJsx
