import WidgetJsx.Proofs.Display
import WidgetJsx.Proofs.PlainCall

/-! String literals of JavaScript in single quotes, which the texts of styles are written as. Quotes and
backslashes are escaped, so that whatever follows, a literal ends where its text does. Line breaks are
not escaped, and no literal may have one. -/

namespace WidgetJsx

namespace Script

/-- Characters that stand for another one behind a backslash. -/
def escapes : List (Char × Char) :=
  [('b', '\x08'), ('t', '\t'), ('n', '\n'), ('v', '\x0b'), ('f', '\x0c'), ('r', '\r')]

/-- What a backslash and a character stand for. Escapes by a number are not read. -/
def escape? (c : Char) : Option (List Char) :=
  if c = 'x' ∨ c = 'u' ∨ c.isDigit then none
  else if c ∈ ['\n', '\r', '\u2028', '\u2029'] then some []
  else some [(escapes.lookup c).getD c]

/-- A character that ends a line, and a literal must not have but behind a backslash. -/
def isBreak (c : Char) : Bool := c == '\n' || c == '\r'

/-- The text that stands up to the closing quote, and what follows the quote. -/
def content? : List Char → Option (List Char × List Char)
  | [] => none
  | c :: cs =>
    if c = '\'' then some ([], cs)
    else if c = '\\' then
      match cs with
      | '\r' :: '\n' :: cs => content? cs
      | c :: cs => (escape? c).bind fun front => (content? cs).map (Prod.map (front ++ ·) id)
      | [] => none
    else if isBreak c then none
    else (content? cs).map (Prod.map (c :: ·) id)

/-- The value of the literal at the head of a text, and what follows it. -/
def literal? : List Char → Option (List Char × List Char)
  | '\'' :: cs => content? cs
  | _ => none

variable {c : Char}

theorem content?_quote (rest : List Char) : content? ('\'' :: rest) = some ([], rest) := by
  rw [content?.eq_def]
  exact if_pos rfl

theorem content?_escaped (hc : c = '\\' ∨ c = '\'') (cs : List Char) :
    content? (Style.escaped c ++ cs) = (content? cs).map (Prod.map (c :: ·) id) := by
  have he : escape? c = some [c] := by
    rcases hc with rfl | rfl <;> decide
  have hr : c ≠ '\r' := by
    rcases hc with rfl | rfl <;> decide
  rw [Style.escaped, if_pos hc, List.cons_append, List.singleton_append, content?.eq_def]
  simp [he, hr]

theorem content?_plain (hc : ¬ (c = '\\' ∨ c = '\'')) (cs : List Char) :
    content? (Style.escaped c ++ cs) =
      if isBreak c then none else (content? cs).map (Prod.map (c :: ·) id) := by
  obtain ⟨hs, hq⟩ := not_or.mp hc
  rw [Style.escaped, if_neg hc, List.singleton_append, content?.eq_def]
  simp only [hs, hq, if_false]

theorem content?_text (text rest : List Char) :
    content? (text.flatMap Style.escaped ++ '\'' :: rest) =
      if text.any isBreak then none else some (text, rest) := by
  induction text with
  | nil => exact content?_quote rest
  | cons c text ih =>
    rw [List.flatMap_cons, List.append_assoc, List.any_cons]
    by_cases hc : c = '\\' ∨ c = '\''
    · have hb : isBreak c = false := by
        rcases hc with rfl | rfl <;> decide
      rw [content?_escaped hc, ih, hb]
      cases text.any isBreak <;> rfl
    · rw [content?_plain hc, ih]
      cases isBreak c <;> cases text.any isBreak <;> rfl

/-- A quoted text is a literal for the text, whatever follows, unless the text has a line break. -/
theorem literal?_quoted (s : String) (rest : List Char) :
    literal? ((Style.quoted s).toList ++ rest) =
      if s.toList.any isBreak then none else some (s.toList, rest) := by
  rw [Style.quoted_append]
  exact content?_text s.toList rest

end Script

theorem Strung.intercalate (separator : String) (pieces : List String) :
    Strung pieces (String.intercalate separator pieces) := by
  induction pieces with
  | nil => exact .nil _
  | cons p pieces ih =>
    cases pieces with
    | nil =>
      rw [String.intercalate_singleton]
      simpa using Strung.cons "" p (.nil "")
    | cons q pieces =>
      rw [String.intercalate_cons_cons, String.append_assoc]
      simpa using Strung.cons "" p (ih.prepend separator)

namespace Element

/-- How the attributes of an element are written. -/
def attributes (e : Element) : List String :=
  e.style.entries.map fun (key, value) => key ++ ": " ++ value.write

theorem strung_opening (e : Element) : Strung e.attributes (opening e.component e.style) := by
  rw [opening, styleText]
  refine Strung.prepend _ ?_
  split
  · rename_i h
    have hnil : e.attributes = [] := by
      rw [attributes, List.isEmpty_iff.mp h, List.map_nil]
    rw [hnil]
    exact .nil _
  · have := ((Strung.intercalate ", " e.attributes).prepend " style=\x7b\x7b").append (.nil "\x7d\x7d")
    rwa [List.append_nil] at this

/-- The attributes in a tree stand in its markup, those of an element in front of those inside it. -/
theorem strung_attributes (e : Element) (unit level : Nat) :
    Strung (e.nodes.flatMap attributes) (e.markup unit level) := by
  induction e using induct generalizing level with
  | node e ih =>
    have hopening : ∀ rest : String,
        Strung e.attributes (indent unit level ++ opening e.component e.style ++ rest) := by
      intro rest
      have := (e.strung_opening.prepend (indent unit level)).append (.nil rest)
      rwa [List.append_nil] at this
    rw [nodes_eq, List.flatMap_cons]
    by_cases hc : e.children = []
    · rw [hc, List.flatMap_nil, List.flatMap_nil, List.append_nil]
      by_cases ht : e.shownText = ""
      · rw [markup_empty unit level hc ht]
        exact hopening _
      · rw [markup_text unit level hc ht]
        simpa only [String.append_assoc] using hopening _
    · have hchildren : Strung ((e.children.flatMap nodes).flatMap attributes)
          (String.join (e.children.map (markup unit (level + 1)))) := by
        rw [List.flatMap_assoc]
        exact Strung.join fun c hm => ih c hm (level + 1)
      rw [markup_children unit level hc]
      have := ((hopening ">\n").append hchildren).append
        (.nil (indent unit level ++ closing e.component ++ "\n"))
      rw [List.append_nil] at this
      simpa only [String.append_assoc] using this

end Element

namespace Conversion

/-- Each text in the style of an element is written behind its key as a literal, which stands for the
text whatever follows it, exactly if the text has no line break. -/
theorem output_literals (c : Conversion) :
    Strung (c.element.nodes.flatMap Element.attributes) c.output ∧
      ∀ e ∈ c.element.nodes, ∀ key s, (key, Style.Value.text s) ∈ e.style.entries →
        key ++ ": " ++ Style.quoted s ∈ e.attributes ∧
          ∀ rest, Script.literal? ((Style.quoted s).toList ++ rest) =
            if s.toList.any Script.isBreak then none else some (s.toList, rest) := by
  refine ⟨c.element.strung_attributes _ _, fun e _ key s hm => ⟨?_, Script.literal?_quoted s⟩⟩
  exact List.mem_map.mpr ⟨_, hm, rfl⟩

theorem output_broken :
    let c := Conversion.ofWidget ⟨"Container", ⟨[("width", .string "a\nb")]⟩, none, .none⟩
    read .standard "Container(width: 'a\nb')" = .ok c ∧
      ("width", Style.Value.text "a\nb") ∈ c.element.style.entries ∧
        convert "Container(width: 'a\nb')" = "<View style=\x7b\x7bwidth: 'a\nb'\x7d\x7d />\n" ∧
          ∀ rest, Script.literal? ("'a\nb'".toList ++ rest) = none := by
  intro c
  have hq : Style.quoted "a\nb" = "'a\nb'" := by decide
  have hsource : "Container(width: 'a\nb')" = "Container(width: " ++ Style.quoted "a\nb" ++ ")" := by decide
  have hr := read_box (Style.literalOf_quoted "a\nb") (by decide)
  refine ⟨?_, ?_, ?_, fun rest => ?_⟩
  · rw [hsource, read_eq, hr]
    rfl
  · have hstyle : c.element.style = ⟨[("width", .text "a\nb")]⟩ := by
      rw [← style_box "a\nb", show c.element = _ from Element.ofWidget_leaf rfl]
    rw [hstyle]
    exact List.mem_singleton_self _
  · rw [hsource, convert_box "a\nb" hr, show (Style.Value.text "a\nb").write = _ from hq]
    decide
  · rw [← hq]
    exact Script.literal?_quoted "a\nb" rest

end Conversion

end WidgetJsx
