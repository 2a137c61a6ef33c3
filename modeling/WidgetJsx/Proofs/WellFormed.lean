import Mathlib
import WidgetJsx.Proofs.Body

/-! Every widget of a tree that has been read is well formed, whatever the source text. One reading
of a call establishes it for one widget, and the widgets held come from calls that are read alike. -/

namespace WidgetJsx

open Expression Text

/-- No white space at either end. -/
def Trimmed (cs : List Char) : Prop :=
  (∀ c ∈ cs.head?, isBlank c = false) ∧ ∀ c ∈ cs.getLast?, isBlank c = false

theorem trimmed_trim (cs : List Char) : Trimmed (trim cs) := by
  have hd : ∀ l : List Char, ∀ c ∈ (l.dropWhile isBlank).head?, isBlank c = false := by
    intro l c hc
    have := List.head?_dropWhile_not isBlank l
    rw [hc] at this
    simpa using this
  refine ⟨fun c hc => ?_, fun c hc => ?_⟩
  · have hp : trim cs <+: trimStart cs := by
      have := (List.dropWhile_suffix isBlank (l := (trimStart cs).reverse)).reverse
      rwa [List.reverse_reverse] at this
    obtain ⟨more, hm⟩ := hp
    refine hd cs c ?_
    rw [show cs.dropWhile isBlank = trim cs ++ more from hm.symm]
    simp [List.head?_append, Option.mem_def.mp hc]
  · rw [trim, trimEnd, List.getLast?_reverse] at hc
    exact hd _ c hc

/-- The text of an argument is of the kind that the argument says. -/
def Argument.Formed : Argument Widget → Prop
  | .number text => IsNumber text.toList
  | .reference path => ∃ names, PathOf names path.toList ∧ 2 ≤ names.length
  | .construction text => ∃ names path gap body, PathOf names path ∧ Trivia gap ∧
      Widget.isWidgetName (String.ofList path) = false ∧
        text.toList = path ++ (gap ++ '(' :: (body ++ [')']))
  | .raw text => Trimmed text.toList
  | .string _ | .boolean _ | .widget _ | .widgets _ => True

namespace Widget

/-- What holds of one widget, apart from those that it holds. -/
structure Formed (w : Widget) : Prop where
  nodup : w.arguments.keys.Nodup
  isName : ∀ key ∈ w.arguments.keys, IsName key.toList
  argument : ∀ entry ∈ w.arguments.entries, entry.2.Formed
  text : ∀ text, w.text? = some text → isTextName w.name = true ∧ w.content = .none
  child : w.text? = none → ∀ v, ("child", .widget v) ∉ w.arguments.entries
  children : w.text? = none → ∀ vs, ("children", .widgets vs) ∈ w.arguments.entries →
    ∃ v, w.content = .child v

end Widget

section

variable {descend : Call → Except Fault Widget}

theorem formed_of_readArgument {s : Cursor} {form : Form} {n : Nat} {a : Argument Widget}
    (hf : FormAt s form n) (h : readArgument descend form = .ok a) : a.Formed := by
  cases hf with
  | number hp =>
    cases h
    obtain ⟨u, rest, ha, hl, hu⟩ := number_split hp
    rw [Argument.Formed, Cursor.text, String.toList_ofList, hl, ha, List.take_left]
    exact hu
  | reference hd =>
    cases h
    have hp : 0 < pathLength (unworded s).ahead := by
      apply Nat.pos_of_ne_zero
      intro hz
      rw [hz] at hd
      exact absurd hd List.not_mem_nil
    obtain ⟨names, u, rest, ha, hl, hu, -⟩ := path_split hp
    rw [hl, ha, List.take_left] at hd
    rw [Argument.Formed, Cursor.text, String.toList_ofList, hl, ha, List.take_left]
    exact ⟨names, hu, hu.dot_mem_iff.mp hd⟩
  | @construction call n hc hw =>
    cases h
    obtain ⟨names, path, gap, rest, ha, hpath, hgap, hname, rfl⟩ := hc.text_eq
    have ht : (unworded s).ahead =
        path ++ (gap ++ '(' :: (call.arguments.ahead ++ [')'])) ++ rest := by simpa using ha
    refine ⟨names, path, gap, call.arguments.ahead, hpath, hgap, by rwa [← hname], ?_⟩
    rw [Cursor.text, String.toList_ofList, ht, List.take_left]
  | raw _ =>
    cases h
    rw [Argument.Formed, String.toList_ofList]
    exact trimmed_trim _
  | string | boolean =>
    cases h
    trivial
  | widget | list | typed =>
    obtain ⟨_, -, h⟩ := exists_of_bind_eq_ok h
    cases h
    trivial

theorem formed_of_mem_readEntries {s : Cursor} {entries : List Entry}
    (h : readEntries descend s = .ok entries) {key : String} {value : Argument Widget}
    (hm : (key, value) ∈ (Entry.named entries).entries) : IsName key.toList ∧ value.Formed := by
  obtain ⟨hk, k, form, n, hf, ha⟩ := exists_of_mem_readEntries h (mem_named hm)
  exact ⟨hk key rfl, formed_of_readArgument (formAt_of_readForm hf) ha⟩

theorem formed_of_readBody {call : Call} {w : Widget} (h : readBody descend call = .ok w) :
    w.Formed := by
  obtain ⟨k, entries, he, hw⟩ := readBody_cases h
  have hentry : ∀ entry ∈ (Entry.named entries).entries, IsName entry.1.toList ∧ entry.2.Formed := by
    intro entry hm
    rcases he with he | rfl
    · exact formed_of_mem_readEntries he hm
    · exact absurd (mem_named hm) List.not_mem_nil
  have hkeys : ∀ fs : Fields (Argument Widget), (∀ entry ∈ fs.entries, IsName entry.1.toList) →
      ∀ key ∈ fs.keys, IsName key.toList := by
    intro fs hfs key hm
    obtain ⟨entry, he, rfl⟩ := List.mem_map.mp hm
    exact hfs entry he
  have hnd := nodup_named entries
  rcases hw with ⟨ht, text, rfl⟩ | rfl
  · exact ⟨hnd, hkeys _ fun entry hm => (hentry entry hm).1, fun entry hm => (hentry entry hm).2,
      fun _ _ => ⟨ht, rfl⟩, by simp, by simp⟩
  · exact ⟨Content.nodup_split hnd, hkeys _ fun entry hm => (hentry entry (Content.mem_split hm)).1,
      fun entry hm => (hentry entry (Content.mem_split hm)).2, by simp,
      fun _ => Content.child_not_mem_split hnd,
      fun _ _ => Content.exists_child_of_children_mem_split hnd⟩

end

namespace Widget

/-- Reading a call gives a widget that is well formed, as are all that it holds. -/
theorem formed_of_within {allowed left : Nat} {call : Call} {w v : Widget}
    (h : readWidget allowed left call = .ok w) (hv : Within v w) :
    v.Formed ∧ ∀ u ∈ v.held, isWidgetName u.name = true := by
  induction left generalizing call w with
  | zero => cases h
  | succ left ih =>
    rcases within_iff.mp hv with rfl | ⟨u, hu, hv⟩
    · refine ⟨formed_of_readBody h, fun u hu => ?_⟩
      obtain ⟨inner, ho, hd⟩ := occurs_of_mem_held h hu
      obtain ⟨left, rfl, hb⟩ := readWidget_eq_ok hd
      rw [name_of_readBody hb]
      exact ho.callAt.1
    · obtain ⟨inner, -, hd⟩ := occurs_of_mem_held h hu
      exact ih hd hv

/-- Whatever is read is well formed: the root is named by an identifier, all other widgets by
widget names, and each widget of the tree is well formed in itself. -/
theorem read_formed {limits : Limits} {source : String} {root : Widget}
    (h : Widget.read limits source = .ok root) :
    IsName root.name.toList ∧ isDotted root.name = false ∧
      ∀ v, Within v root → v.Formed ∧ ∀ u ∈ v.held, isWidgetName u.name = true := by
  obtain ⟨-, call, rest, hc, hd, hr, -⟩ := read_eq_ok_iff.mp h
  obtain ⟨n, hcall, -⟩ := readCall_eq_ok_iff.mp hc
  obtain ⟨left, hleft, hb⟩ := readWidget_eq_ok hr
  rw [name_of_readBody hb]
  exact ⟨hcall.isName hd, hd, fun v hv => formed_of_within hr hv⟩

set_option maxRecDepth 4000 in
theorem read_formed_row :
    let root : Widget := ⟨"Row", ⟨[("gap", .number "-1.5")]⟩, none,
      .children [⟨"Text", ⟨[]⟩, some "a", .none⟩]⟩
    Widget.read .standard "Row(gap: -1.5, children: [Text('a')])" = .ok root ∧
      IsName root.name.toList ∧ isDotted root.name = false ∧
        ∀ v, Within v root → v.Formed ∧ ∀ u ∈ v.held, isWidgetName u.name = true := by
  have h : Widget.read .standard "Row(gap: -1.5, children: [Text('a')])" =
      .ok ⟨"Row", ⟨[("gap", .number "-1.5")]⟩, none,
        .children [⟨"Text", ⟨[]⟩, some "a", .none⟩]⟩ := by cbv
  exact ⟨h, read_formed h⟩

end Widget

end WidgetJsx
