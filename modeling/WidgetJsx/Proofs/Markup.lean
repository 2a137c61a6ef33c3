import WidgetJsx.Element.Basic

/-! Elements as trees: all the nodes of one, induction from the children up, and the markup of an
element from the markup of its children. -/

namespace WidgetJsx.Element

theorem sizeOf_lt_of_mem_children {c e : Element} (h : c ∈ e.children) : sizeOf c < sizeOf e := by
  obtain ⟨component, style, text?, children⟩ := e
  have := List.sizeOf_lt_of_mem (show c ∈ children from h)
  simp only [mk.sizeOf_spec]
  omega

/-- What an element has as soon as its children have it, all elements have. -/
@[elab_as_elim]
theorem induct {motive : Element → Prop} (node : ∀ e, (∀ c ∈ e.children, motive c) → motive e)
    (e : Element) : motive e :=
  node e fun c _ => induct node c
termination_by sizeOf e
decreasing_by exact sizeOf_lt_of_mem_children ‹_›

/-- An element and all that stand inside it, each before those inside itself. -/
def nodes (e : Element) : List Element :=
  e :: e.children.attach.flatMap fun ⟨c, _⟩ => c.nodes
termination_by sizeOf e
decreasing_by exact sizeOf_lt_of_mem_children ‹_›

theorem nodes_eq (e : Element) : e.nodes = e :: e.children.flatMap nodes := by
  rw [nodes]
  simp

theorem mem_nodes_self (e : Element) : e ∈ e.nodes := by
  rw [nodes_eq]
  exact List.mem_cons_self

theorem mem_nodes_of_mem_children {c e n : Element} (hc : c ∈ e.children) (hn : n ∈ c.nodes) :
    n ∈ e.nodes := by
  rw [nodes_eq]
  exact List.mem_cons_of_mem _ (List.mem_flatMap.mpr ⟨c, hc, hn⟩)

/-- The text that is shown. -/
def shownText (e : Element) : String :=
  if e.children.isEmpty then e.text?.getD "" else ""

theorem shownText_of_children {e : Element} (h : e.children ≠ []) : e.shownText = "" :=
  if_neg (mt List.isEmpty_iff.mp h)

theorem shownText_cases (e : Element) : e.shownText = "" ∨ e.text? = some e.shownText := by
  by_cases hc : e.children = []
  · have hs : e.shownText = e.text?.getD "" := if_pos (List.isEmpty_iff.mpr hc)
    rw [hs]
    cases e.text? with
    | none => exact .inl rfl
    | some text => exact .inr rfl
  · exact .inl (shownText_of_children hc)

def indent (unit level : Nat) : String := String.ofList (List.replicate (level * unit) ' ')

section

variable {e : Element} (unit level : Nat)

theorem lines_empty (hc : e.children = []) (ht : e.shownText = "") :
    lines level e = [⟨level, opening e.component e.style ++ " />"⟩] := by
  obtain ⟨component, style, text?, children⟩ := e
  obtain rfl : children = [] := hc
  have ht : text?.getD "" = "" := ht
  simp [lines, ht]

theorem lines_text (hc : e.children = []) (ht : e.shownText ≠ "") : lines level e =
    [⟨level, opening e.component e.style ++ ">" ++ e.shownText ++ closing e.component⟩] := by
  obtain ⟨component, style, text?, children⟩ := e
  obtain rfl : children = [] := hc
  have ht : text?.getD "" ≠ "" := ht
  simp [lines, ht, shownText]

theorem lines_children (hc : e.children ≠ []) : lines level e =
    ⟨level, opening e.component e.style ++ ">"⟩ :: e.children.flatMap (lines (level + 1)) ++
      [⟨level, closing e.component⟩] := by
  obtain ⟨component, style, text?, children⟩ := e
  have hc : children ≠ [] := hc
  simp [lines, hc]

/-- The texts of the lines that an element has besides those of its children. -/
inductive LineOf (e : Element) : String → Prop
  | empty : LineOf e (opening e.component e.style ++ " />")
  | text : LineOf e (opening e.component e.style ++ ">" ++ e.shownText ++ closing e.component)
  | start : LineOf e (opening e.component e.style ++ ">")
  | stop : LineOf e (closing e.component)

theorem exists_of_mem_lines {line : Line} (h : line ∈ e.lines level) :
    ∃ n ∈ e.nodes, n.LineOf line.text := by
  induction e using induct generalizing level with
  | node e ih =>
    by_cases hc : e.children = []
    · by_cases ht : e.shownText = ""
      · rw [lines_empty level hc ht] at h
        obtain rfl := List.mem_singleton.mp h
        exact ⟨e, mem_nodes_self e, .empty⟩
      · rw [lines_text level hc ht] at h
        obtain rfl := List.mem_singleton.mp h
        exact ⟨e, mem_nodes_self e, .text⟩
    · rw [lines_children level hc] at h
      simp only [List.mem_append, List.mem_cons, List.mem_flatMap, List.not_mem_nil, or_false] at h
      rcases h with (rfl | ⟨child, hchild, h⟩) | rfl
      · exact ⟨e, mem_nodes_self e, .start⟩
      · obtain ⟨n, hn, hl⟩ := ih child hchild (level + 1) h
        exact ⟨n, mem_nodes_of_mem_children hchild hn, hl⟩
      · exact ⟨e, mem_nodes_self e, .stop⟩

theorem markup_empty (hc : e.children = []) (ht : e.shownText = "") : e.markup unit level =
    indent unit level ++ opening e.component e.style ++ " />\n" := by
  rw [markup, lines_empty level hc ht]
  simp [Line.write, indent, String.append_assoc]

theorem markup_text (hc : e.children = []) (ht : e.shownText ≠ "") : e.markup unit level =
    indent unit level ++ opening e.component e.style ++ ">" ++ e.shownText ++ closing e.component ++
      "\n" := by
  rw [markup, lines_text level hc ht]
  simp [Line.write, indent, String.append_assoc]

theorem join_map_write_flatMap (children : List Element) :
    String.join ((children.flatMap (lines level)).map (Line.write unit)) =
      String.join (children.map (markup unit level)) := by
  induction children with
  | nil => rfl
  | cons c children ih =>
    rw [List.flatMap_cons, List.map_append, String.join_append, ih, List.map_cons, String.join_cons]
    rfl

theorem markup_children (hc : e.children ≠ []) : e.markup unit level =
    indent unit level ++ opening e.component e.style ++ ">\n" ++
      String.join (e.children.map (markup unit (level + 1))) ++
        indent unit level ++ closing e.component ++ "\n" := by
  rw [markup, lines_children level hc, List.map_append, List.map_cons, String.join_append,
    String.join_cons, join_map_write_flatMap]
  simp [Line.write, indent, String.append_assoc]

end

end WidgetJsx.Element
