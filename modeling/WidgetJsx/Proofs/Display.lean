import WidgetJsx.Conversion
import WidgetJsx.Proofs.Markup
import WidgetJsx.Proofs.WellFormed

/-! The texts that the widgets of a tree display all stand in its markup, in the order of the tree and
each between the tags of its own element. What shows a text has nothing inside, so that none is left
out in favour of children. -/

namespace WidgetJsx

/-- The pieces stand in a text one behind another. -/
inductive Strung : List String → String → Prop
  | nil (s : String) : Strung [] s
  | cons {pieces : List String} {rest : String} (before piece : String) (h : Strung pieces rest) :
      Strung (piece :: pieces) (before ++ piece ++ rest)

namespace Strung

variable {ps qs : List String} {s t : String}

theorem prepend (before : String) (h : Strung ps s) : Strung ps (before ++ s) := by
  cases h with
  | nil => exact .nil _
  | cons b p h =>
    rw [← String.append_assoc, ← String.append_assoc]
    exact .cons _ _ h

theorem append (h : Strung ps s) (h' : Strung qs t) : Strung (ps ++ qs) (s ++ t) := by
  induction h with
  | nil s => exact h'.prepend s
  | cons b p _ ih =>
    rw [String.append_assoc]
    exact .cons b p ih

theorem join {α : Type} {pieces : α → List String} {text : α → String} {l : List α}
    (h : ∀ x ∈ l, Strung (pieces x) (text x)) :
    Strung (l.flatMap pieces) (String.join (l.map text)) := by
  induction l with
  | nil => exact .nil _
  | cons x l ih =>
    rw [List.flatMap_cons, List.map_cons, String.join_cons]
    exact (h x List.mem_cons_self).append (ih fun y hy => h y (List.mem_cons_of_mem x hy))

end Strung

namespace Widget

/-- The text that a widget displays, if there is one to be seen. -/
def displayed? (w : Widget) : Option String :=
  if isTextName w.name then w.text?.filter (· ≠ "") else none

/-- The texts displayed by a widget and by all that stand inside it. -/
def displayed (w : Widget) : List String := w.nested.filterMap displayed?

/-- How a text is written between its tags. -/
def displayedPiece (text : String) : String := ">" ++ text ++ "</Text>"

variable {w v : Widget}

theorem displayed_eq (w : Widget) :
    w.displayed = w.displayed?.toList ++ w.content.toList.flatMap displayed := by
  rw [displayed, nested_eq, List.filterMap_cons, List.filterMap_flatMap]
  cases w.displayed? with
  | none => rfl
  | some text => rfl

theorem displayed?_eq_some_iff {text : String} :
    w.displayed? = some text ↔ isTextName w.name = true ∧ w.text? = some text ∧ text ≠ "" := by
  simp [displayed?, Option.filter_eq_some_iff]

theorem component_of_isTextName {name : String} (h : isTextName name = true) :
    Catalog.component name = .text := by
  have hm : name ∈ textNames := List.contains_iff_mem.mp h
  simp only [textNames, List.mem_cons, List.not_mem_nil, or_false] at hm
  rcases hm with rfl | rfl <;> decide

theorem within_of_mem_nested (h : v ∈ w.nested) : Within v w := by
  induction w using nested.induct with
  | case1 w ih =>
    rw [nested_eq] at h
    rcases List.mem_cons.mp h with rfl | h
    · exact .refl
    · obtain ⟨child, hc, hv⟩ := List.mem_flatMap.mp h
      exact within_iff.mpr (.inr ⟨child, List.mem_append_right _ hc, ih child hc hv⟩)

end Widget

namespace Element

variable {w : Widget}

theorem nodes_ofWidget (w : Widget) : (ofWidget w).nodes = w.nested.map ofWidget := by
  induction w using Widget.nested.induct with
  | case1 w ih =>
    have hc : (w.content.toList.map ofWidget).flatMap nodes =
        (w.content.toList.flatMap Widget.nested).map ofWidget := by
      rw [List.flatMap_map, List.map_flatMap]
      exact List.flatMap_congr ih
    rw [nodes_eq, ofWidget_children, hc, Widget.nested_eq, List.map_cons]

theorem ofWidget_text? (w : Widget) :
    (ofWidget w).text? = if Widget.isTextName w.name then w.text? else none := by
  rw [ofWidget]

theorem ofWidget_component (w : Widget) : (ofWidget w).component = Catalog.component w.name := by
  rw [ofWidget]

theorem markup_of_displayed {text : String} (hd : w.displayed? = some text)
    (hc : w.content.toList = []) (unit level : Nat) : (ofWidget w).markup unit level =
      indent unit level ++ opening .text w.style ++ Widget.displayedPiece text ++ "\n" := by
  obtain ⟨hn, ht, hne⟩ := Widget.displayed?_eq_some_iff.mp hd
  have hchildren : (ofWidget w).children = [] := by rw [ofWidget_children, hc, List.map_nil]
  have hcomponent : (ofWidget w).component = .text := by
    rw [ofWidget_component, Widget.component_of_isTextName hn]
  have hstyle : (ofWidget w).style = w.style := by rw [ofWidget]
  have hshown : (ofWidget w).shownText = text := by
    rw [shownText, hchildren, ofWidget_text?, if_pos hn, ht]
    rfl
  rw [markup_text unit level hchildren (by rwa [hshown]), hshown, hcomponent, hstyle]
  simp only [Widget.displayedPiece, String.append_assoc]
  rfl

/-- The texts that are displayed in a tree stand in its markup, if what has a text has nothing
inside. -/
theorem strung_markup (h : ∀ v ∈ w.nested, v.text?.isSome = true → v.content = .none)
    (unit level : Nat) :
    Strung (w.displayed.map Widget.displayedPiece) ((ofWidget w).markup unit level) := by
  induction w using Widget.nested.induct generalizing level with
  | case1 w ih =>
    have hself : w ∈ w.nested := by
      rw [Widget.nested_eq]
      exact List.mem_cons_self
    rw [Widget.displayed_eq]
    by_cases hc : w.content.toList = []
    · rw [hc, List.flatMap_nil, List.append_nil]
      cases hd : w.displayed? with
      | none => exact .nil _
      | some text =>
        rw [markup_of_displayed hd hc]
        exact .cons _ _ (.nil _)
    · -- a text here would mean that there is no content
      have hd : w.displayed? = none := by
        cases hd : w.displayed? with
        | none => rfl
        | some text =>
          obtain ⟨-, ht, -⟩ := Widget.displayed?_eq_some_iff.mp hd
          have := h w hself (by rw [ht]; rfl)
          exact absurd (by rw [this]; rfl) hc
      have hchildren : (ofWidget w).children ≠ [] := by
        rw [ofWidget_children]
        exact mt List.map_eq_nil_iff.mp hc
      have hjoin : Strung ((w.content.toList.flatMap Widget.displayed).map Widget.displayedPiece)
          (String.join (((ofWidget w).children.map (markup unit (level + 1))))) := by
        rw [ofWidget_children, List.map_map, List.map_flatMap]
        refine Strung.join fun child hm => ih child hm (fun v hv => h v ?_) (level + 1)
        rw [Widget.nested_eq]
        exact List.mem_cons_of_mem _ (List.mem_flatMap.mpr ⟨child, hm, hv⟩)
      rw [hd, markup_children unit level hchildren, String.append_assoc, String.append_assoc]
      have := (hjoin.prepend (indent unit level ++ opening (ofWidget w).component (ofWidget w).style
        ++ ">\n")).append (.nil (indent unit level ++ (closing (ofWidget w).component ++ "\n")))
      rwa [List.append_nil] at this

end Element

namespace Conversion

variable {limits : Limits} {source : String} {c : Conversion}

theorem read_eq (limits : Limits) (source : String) :
    read limits source = (Widget.read limits source).map ofWidget := by
  unfold read
  cases Widget.read limits source with
  | error fault => rfl
  | ok w => rfl

theorem content_of_text {w : Widget} (h : Widget.read limits source = .ok w) :
    ∀ v ∈ w.nested, v.text?.isSome = true → v.content = .none := by
  obtain ⟨-, call, -, -, -, hr, -⟩ := Widget.read_eq_ok_iff.mp h
  intro v hv ht
  obtain ⟨text, ht⟩ := Option.isSome_iff_exists.mp ht
  exact ((Widget.formed_of_within hr (Widget.within_of_mem_nested hv)).1.text text ht).2

/-- No text that is displayed gets lost: an element with a text has no children, and the output has
the texts of the widgets inside one another, in their order and apart from each other. -/
theorem read_displays (h : read limits source = .ok c) :
    (∀ e ∈ c.element.nodes, e.text?.isSome = true → e.children = []) ∧
      Strung (c.widget.displayed.map Widget.displayedPiece) c.output := by
  rw [read_eq] at h
  cases hw : Widget.read limits source with
  | error fault =>
    rw [hw] at h
    cases h
  | ok w =>
  obtain rfl : ofWidget w = c := by
    rw [hw] at h
    exact Except.ok.inj h
  have hcontent := content_of_text hw
  refine ⟨fun e he ht => ?_, Element.strung_markup hcontent _ _⟩
  rw [ofWidget, Element.nodes_ofWidget] at he
  obtain ⟨v, hv, rfl⟩ := List.mem_map.mp he
  have hv' : v.text?.isSome = true := by
    rw [Element.ofWidget_text?] at ht
    split at ht
    · exact ht
    · cases ht
  rw [Element.ofWidget_children, hcontent v hv hv']
  rfl

set_option maxRecDepth 4000 in
theorem read_row : Widget.read .standard "Row(children: [Text('a'), Text('b')])" =
    .ok ⟨"Row", ⟨[]⟩, none,
      .children [⟨"Text", ⟨[]⟩, some "a", .none⟩, ⟨"Text", ⟨[]⟩, some "b", .none⟩]⟩ := by
  cbv

theorem read_displays_row :
    let c := Conversion.ofWidget ⟨"Row", ⟨[]⟩, none,
      .children [⟨"Text", ⟨[]⟩, some "a", .none⟩, ⟨"Text", ⟨[]⟩, some "b", .none⟩]⟩
    read .standard "Row(children: [Text('a'), Text('b')])" = .ok c ∧
      (∀ e ∈ c.element.nodes, e.text?.isSome = true → e.children = []) ∧
        Strung [">a</Text>", ">b</Text>"] c.output := by
  have h := read_eq .standard "Row(children: [Text('a'), Text('b')])"
  rw [read_row] at h
  obtain ⟨hnodes, hs⟩ := read_displays h
  refine ⟨h, hnodes, ?_⟩
  simpa [ofWidget, Widget.displayed_eq, Widget.displayed?, Widget.isTextName, Widget.textNames,
    Content.toList, Widget.displayedPiece, Option.filter] using hs

end Conversion

end WidgetJsx
