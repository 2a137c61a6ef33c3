import WidgetJsx.Proofs.PlainCall
import WidgetJsx.Proofs.Presentation

/-! The imports in front of an output, and the tags behind them. The imports stay as they are when the
output is indented anew. The tags name the components that the widgets of the tree become, and all of
these are imported if none of the widgets scrolls or is touched, and only then. -/

namespace WidgetJsx

namespace Script

/-- The words of a text: letters and digits with nothing between them. -/
def words (cs : List Char) : List String :=
  ((cs.splitOnP fun c => !c.isAlphanum).filter (· ≠ [])).map String.ofList

/-- The names that a line brings into scope: those between `import` and `from`. -/
def importedNames (line : List Char) : List String :=
  match words line with
  | "import" :: names => names.takeWhile (· ≠ "from")
  | _ => []

def imported (text : String) : List String := (Text.lines text.toList).flatMap importedNames

end Script

namespace Element

/-- The name in a tag at the head of a line, be it an opening or a closing one. -/
def tagName? : List Char → Option String
  | '<' :: cs => some (String.ofList ((cs.dropWhile (· == '/')).takeWhile Char.isAlphanum))
  | _ => none

/-- The names in the tags that the lines of an element start with. What closes an element with a text is on
its only line. -/
def tags (e : Element) : List String := (e.lines 0).filterMap fun line => tagName? line.text.toList

theorem tagName?_opening (component : Component) (style : Style) {rest : List Char}
    (hr : EndsTag rest) :
    tagName? ((opening component style).toList ++ rest) = some component.name := by
  have hslash (cs : List Char) : (component.name.toList ++ cs).dropWhile (· == '/') =
      component.name.toList ++ cs := by
    cases component <;> rfl
  have hname := Expression.takeWhile_append_eq component.isAlphanum_of_mem_name
    (styleText_append_not_isAlphanum style hr)
  have htext : (opening component style).toList ++ rest =
      '<' :: (component.name.toList ++ ((styleText style).toList ++ rest)) := by
    simp [opening]
  rw [htext, tagName?, hslash, hname, String.ofList_toList]

theorem tagName?_closing (component : Component) :
    tagName? (closing component).toList = some component.name := by
  cases component <;> decide

/-- The tags are those of the components of all the elements. -/
theorem mem_tagNames {name : String} (e : Element) (level : Nat) :
    name ∈ (e.lines level).filterMap (fun line => tagName? line.text.toList) ↔
      ∃ n ∈ e.nodes, n.component.name = name := by
  induction e using induct generalizing level with
  | node e ih =>
    rw [nodes_eq]
    by_cases hc : e.children = []
    · have hline : ∃ rest, EndsTag rest ∧ ∃ line : Line, e.lines level = [line] ∧
          line.text.toList = (opening e.component e.style).toList ++ rest := by
        by_cases ht : e.shownText = ""
        · exact ⟨" />".toList, .inr ⟨_, rfl⟩, _, lines_empty level hc ht, by simp⟩
        · exact ⟨'>' :: (e.shownText ++ closing e.component).toList, .inl ⟨_, rfl⟩, _,
            lines_text level hc ht, by simp⟩
      obtain ⟨rest, hr, line, hlines, htext⟩ := hline
      rw [hlines, hc, List.filterMap_cons, htext, tagName?_opening e.component e.style hr]
      simp [eq_comm]
    · have hfirst : tagName? (opening e.component e.style ++ ">").toList = some e.component.name := by
        rw [String.toList_append]
        exact tagName?_opening e.component e.style (.inl ⟨[], rfl⟩)
      rw [lines_children level hc, List.cons_append, List.filterMap_cons, hfirst, List.filterMap_append,
        List.filterMap_flatMap, List.filterMap_cons, tagName?_closing, List.filterMap_nil]
      simp only [List.mem_cons, List.mem_append, List.mem_flatMap, List.not_mem_nil, or_false]
      constructor
      · rintro (rfl | ⟨child, hm, hname⟩ | rfl)
        · exact ⟨e, .inl rfl, rfl⟩
        · obtain ⟨n, hn, rfl⟩ := (ih child hm (level + 1)).mp hname
          exact ⟨n, .inr ⟨child, hm, hn⟩, rfl⟩
        · exact ⟨e, .inl rfl, rfl⟩
      · rintro ⟨n, rfl | ⟨child, hm, hn⟩, rfl⟩
        · exact .inl rfl
        · exact .inr (.inl ⟨child, hm, (ih child hm (level + 1)).mpr ⟨n, hn, rfl⟩⟩)

theorem mem_tags {name : String} {e : Element} :
    name ∈ e.tags ↔ ∃ n ∈ e.nodes, n.component.name = name :=
  mem_tagNames e 0

theorem mem_tags_ofWidget {name : String} {w : Widget} :
    name ∈ (ofWidget w).tags ↔ ∃ v ∈ w.nested, (Catalog.component v.name).name = name := by
  simp [mem_tags, nodes_ofWidget, ofWidget_component]

end Element

namespace Service

theorem imported_importLines : Script.imported importLines = ["React", "View", "Text", "StyleSheet"] := by
  decide

theorem imported_component_iff (name : String) :
    (Catalog.component name).name ∈ Script.imported importLines ↔
      name ∉ ["SingleChildScrollView", "ListView", "GestureDetector", "InkWell"] := by
  have hitems : ∀ item ∈ Catalog.items, item.component.name ∈ Script.imported importLines ↔
      item.widget ∉ ["SingleChildScrollView", "ListView", "GestureDetector", "InkWell"] := by
    rw [imported_importLines]
    decide
  have hknown : ∀ name ∈ ["SingleChildScrollView", "ListView", "GestureDetector", "InkWell"],
      Catalog.find? name ≠ none := by decide
  unfold Catalog.component
  cases hf : Catalog.find? name with
  | some item =>
    have hname : item.widget = name := by simpa using List.find?_some hf
    rw [← hname]
    exact hitems item (List.mem_of_find?_eq_some hf)
  | none =>
    rw [imported_importLines]
    exact iff_of_true (by decide) fun hm => hknown name hm hf

/-- A line that is not indented stays in front of what is indented anew. -/
theorem unlines_reindent {line : List Char} (hn : '\n' ∉ line) (hl : Element.leadingBytes line = 0)
    (unit : Nat) (cs : List Char) :
    Text.unlines ((Text.lines (line ++ '\n' :: cs)).map (Element.reindentLine unit)) =
      line ++ '\n' :: Text.unlines ((Text.lines cs).map (Element.reindentLine unit)) := by
  have hline : Element.reindentLine unit line = line := by
    rw [Element.reindentLine, if_pos hl]
  rw [Text.lines_line hn, List.map_cons, hline,
    Text.unlines_cons (mt List.map_eq_nil_iff.mp (Text.lines_ne_nil _))]

theorem reindent_importLines (unit : Nat) (code : String) :
    Element.reindent unit (importLines ++ code) = importLines ++ Element.reindent unit code := by
  have htext : ∀ cs : List Char, importLines.toList ++ cs = "import React from 'react';".toList ++
      '\n' :: ("import \x7b View, Text, StyleSheet \x7d from 'react-native';".toList ++ '\n' :: cs) := by
    intro cs
    rfl
  unfold Element.reindent
  split
  · rfl
  · rw [String.toList_append, htext, unlines_reindent (by decide) (by decide),
      unlines_reindent (by decide) (by decide), ← htext, String.ofList_append, String.ofList_toList]

/-- With imports, these stand in front of the output as it would be without them, and the tags in the
output name nothing else than what is imported exactly if no widget of the tree is among the four that
scroll or are touched. -/
theorem answer_imports {q : Query} {output : String} {c : Conversion}
    (himports : q.options.includeImports = true) (h : q.answer = .converted output c) :
    output = importLines ++ Element.reindent q.options.unit c.output ∧
      ((∀ tag ∈ c.element.tags, tag ∈ Script.imported importLines) ↔ ∀ v ∈ c.widget.nested,
        v.name ∉ ["SingleChildScrollView", "ListView", "GestureDetector", "InkWell"]) := by
  obtain ⟨code, options⟩ := q
  cases hr : Widget.read .standard code with
  | error fault =>
    rw [answer_of_fault hr] at h
    cases h
  | ok w =>
    rw [answer_of_read hr] at h
    obtain ⟨rfl, rfl⟩ := Reply.converted.inj h
    refine ⟨?_, ?_⟩
    · rw [present, document, if_pos himports, reindent_importLines]
    · constructor
      · intro htags v hv
        exact (imported_component_iff v.name).mp
          (htags _ (Element.mem_tags_ofWidget.mpr ⟨v, hv, rfl⟩))
      · intro hnames tag ht
        obtain ⟨v, hv, rfl⟩ := Element.mem_tags_ofWidget.mp ht
        exact (imported_component_iff v.name).mpr (hnames v hv)

theorem answer_imports_row :
    let q : Query := ⟨"Row(children: [Text('a'), Text('b')])", ⟨true, 4⟩⟩
    ∃ output c, q.options.includeImports = true ∧ q.answer = .converted output c ∧
      output = importLines ++ Element.reindent 4 c.output ∧
        ∀ tag ∈ c.element.tags, tag ∈ Script.imported importLines := by
  intro q
  have h := answer_of_read Conversion.read_row q.options
  obtain ⟨ho, hiff⟩ := answer_imports (q := q) rfl h
  refine ⟨_, _, rfl, h, ho, hiff.mpr fun v hv => ?_⟩
  simp only [Conversion.ofWidget, Widget.nested_eq, Content.toList, List.flatMap_cons, List.flatMap_nil,
    List.append_nil, List.cons_append, List.nil_append, List.mem_cons, List.not_mem_nil, or_false] at hv
  rcases hv with rfl | rfl | rfl
  · decide
  · decide
  · decide

theorem answer_unimported : ∃ c,
    Query.answer ⟨"ListView()", ⟨true, 2⟩⟩ = .converted (importLines ++ "<ScrollView />\n") c ∧
      "ScrollView" ∈ c.element.tags ∧ "ScrollView" ∉ Script.imported importLines := by
  have hread := @Widget.read_bare "ListView" .standard (by decide) (by decide) (by decide) (by decide)
  refine ⟨.ofWidget ⟨"ListView", ⟨[]⟩, none, .none⟩, ?_, ?_, ?_⟩
  · rw [show "ListView()" = "ListView" ++ "()" by decide, answer_of_read hread]
    have houtput : present ⟨true, 2⟩ (.ofWidget ⟨"ListView", ⟨[]⟩, none, .none⟩) =
        importLines ++ "<ScrollView />\n" := by
      rw [present, document, if_pos rfl, reindent_importLines]
      cbv
    rw [houtput]
  · exact Element.mem_tags_ofWidget.mpr ⟨_, by rw [Widget.nested_eq]; exact List.mem_cons_self, by decide⟩
  · rw [imported_importLines]
    decide

end Service

end WidgetJsx
