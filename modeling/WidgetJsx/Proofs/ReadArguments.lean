import WidgetJsx.Proofs.Building
import WidgetJsx.Proofs.RespacedTree
import WidgetJsx.Conversion

/-! The rule for a widget reads some of its arguments by their names. In what order the arguments stand,
and what other ones there are, shows in nothing that is built. -/

namespace WidgetJsx

namespace Fields

variable {α : Type} {fs gs : Fields α} {key : String}

/-- Where no key is twice, what a key holds is a matter of which entries there are. -/
theorem get?_congr (hf : fs.keys.Nodup) (hg : gs.keys.Nodup)
    (h : ∀ value, (key, value) ∈ fs.entries ↔ (key, value) ∈ gs.entries) : fs.get? key = gs.get? key := by
  apply Option.ext
  intro value
  rw [get?_eq_some_iff hf, get?_eq_some_iff hg, h]

end Fields

theorem Element.ofWidget_node (w : Widget) : ofWidget w = ⟨Catalog.component w.name, w.style,
    if Widget.isTextName w.name then w.text? else none, w.content.toList.map ofWidget⟩ := by
  rw [ofWidget]
  simp

namespace Widget

/-- The names of the arguments that the rule for a widget reads. -/
def readKeys (name : String) : List String :=
  match name with
  | "Container" => ["width", "height", "color", "alignment", "decoration", "padding", "margin"]
  | "Text" | "SelectableText" => ["style", "textAlign"]
  | "Row" | "Column" => ["mainAxisAlignment", "crossAxisAlignment"]
  | "Positioned" => ["top", "bottom", "left", "right", "width", "height"]
  | "Expanded" | "Flexible" => ["flex"]
  | "SizedBox" => ["width", "height"]
  | "Padding" => ["padding"]
  | "Opacity" => ["opacity"]
  | _ => []

/-- Two trees of one shape. Widgets in the same place have the same name and text, and each argument that
their rule reads is there in both with one value, or in neither. -/
inductive ReadAlike : Widget → Widget → Prop
  | node {v w : Widget} : v.name = w.name → v.text? = w.text? →
      v.arguments.keys.Nodup → w.arguments.keys.Nodup →
      (∀ key ∈ readKeys v.name, ∀ value,
        (key, value) ∈ v.arguments.entries ↔ (key, value) ∈ w.arguments.entries) →
      v.content.Alike ReadAlike w.content → ReadAlike v w

section

variable {v w : Widget} {keys : List String}

theorem dimensions_congr (h : ∀ key ∈ keys, v.argument? key = w.argument? key) :
    v.dimensions keys = w.dimensions keys := by
  apply congrArg Fields.ofList
  apply List.filterMap_congr
  intro key hk
  rw [h key hk]

theorem argumentText?_congr {key : String} (h : v.argument? key = w.argument? key) :
    v.argumentText? key = w.argumentText? key := by
  rw [argumentText?, argumentText?, h]

theorem containerStyle_congr (h : ∀ key ∈ readKeys "Container", v.argument? key = w.argument? key) :
    v.containerStyle = w.containerStyle := by
  have hd : v.dimensions ["width", "height"] = w.dimensions ["width", "height"] :=
    dimensions_congr fun key hk => h key (List.mem_append_left _ hk)
  have ht : ∀ key ∈ ["color", "alignment", "decoration", "padding", "margin"],
      v.argumentText? key = w.argumentText? key :=
    fun key hk => argumentText?_congr (h key (List.mem_append_right ["width", "height"] hk))
  simp only [List.forall_mem_cons] at ht
  obtain ⟨hcolor, halignment, hdecoration, hpadding, hmargin, -⟩ := ht
  rw [containerStyle, containerStyle, hd, hcolor, halignment, hdecoration, hpadding, hmargin]

theorem textStyle_congr (h : ∀ key ∈ readKeys "Text", v.argument? key = w.argument? key) :
    v.textStyle = w.textStyle := by
  have ht : ∀ key ∈ ["style", "textAlign"], v.argumentText? key = w.argumentText? key :=
    fun key hk => argumentText?_congr (h key hk)
  simp only [List.forall_mem_cons] at ht
  rw [textStyle, textStyle, ht.1, ht.2.1]

theorem flexStyle_congr (h : ∀ key ∈ readKeys "Row", v.argument? key = w.argument? key)
    (direction : String) : v.flexStyle direction = w.flexStyle direction := by
  have ht : ∀ key ∈ ["mainAxisAlignment", "crossAxisAlignment"],
      v.argumentText? key = w.argumentText? key := fun key hk => argumentText?_congr (h key hk)
  simp only [List.forall_mem_cons] at ht
  rw [flexStyle, flexStyle, ht.1, ht.2.1]

theorem positionedStyle_congr (h : ∀ key ∈ readKeys "Positioned", v.argument? key = w.argument? key) :
    v.positionedStyle = w.positionedStyle := by
  have hd : v.dimensions ["top", "bottom", "left", "right", "width", "height"] =
      w.dimensions ["top", "bottom", "left", "right", "width", "height"] := dimensions_congr h
  rw [positionedStyle, positionedStyle, hd]

theorem shareStyle_congr (h : ∀ key ∈ readKeys "Flexible", v.argument? key = w.argument? key) :
    v.shareStyle = w.shareStyle := by
  rw [shareStyle, shareStyle, h "flex" List.mem_cons_self]

/-- A style comes from the name and from the arguments that the rule reads. -/
theorem style_of_readKeys (hn : v.name = w.name)
    (h : ∀ key ∈ readKeys v.name, v.argument? key = w.argument? key) : v.style = w.style := by
  unfold style
  rw [← hn]
  split
  case h_1 hv =>
    rw [hv] at h
    exact containerStyle_congr h
  case h_2 hv | h_3 hv =>
    rw [hv] at h
    exact textStyle_congr h
  case h_4 hv =>
    rw [hv] at h
    exact flexStyle_congr h "row"
  case h_5 hv =>
    rw [hv] at h
    exact flexStyle_congr h "column"
  case h_7 hv =>
    rw [hv] at h
    exact positionedStyle_congr h
  case h_8 hv | h_9 hv =>
    rw [hv] at h
    exact shareStyle_congr h
  case h_10 hv | h_13 hv =>
    rw [hv] at h
    exact dimensions_congr h
  case h_11 hv =>
    rw [hv] at h
    rw [argumentText?_congr (h "padding" List.mem_cons_self)]
  all_goals rfl

/-- A value that shows in the style of a widget whose rule reads the argument. -/
def sample (key : String) : Argument Widget :=
  match key with
  | "alignment" => .reference "Alignment.center"
  | "decoration" => .construction "BoxDecoration(color: red)"
  | "padding" | "margin" => .reference "EdgeInsets.zero"
  | "style" => .construction "TextStyle(color: red)"
  | _ => .reference "red"

theorem style_sample {name key : String} (h : key ∈ readKeys name) :
    (Widget.mk name ⟨[(key, sample key)]⟩ none .none).style ≠ (Widget.mk name ∅ none .none).style := by
  have hentries : ∀ key ∈ readKeys name, (Widget.mk name ⟨[(key, sample key)]⟩ none .none).style.entries ≠
      (Widget.mk name ∅ none .none).style.entries := by
    unfold readKeys
    split
    case h_12 => exact fun _ hk => absurd hk List.not_mem_nil
    all_goals decide +kernel
  exact fun he => hentries key h (congrArg Fields.entries he)

/-- The arguments that a rule reads are those that can make a difference to a style on their own. -/
theorem mem_readKeys_iff {name key : String} : key ∈ readKeys name ↔
    ∃ v w : Widget, v.name = name ∧ w.name = name ∧
      (∀ other ≠ key, v.argument? other = w.argument? other) ∧ v.style ≠ w.style := by
  constructor
  · intro h
    refine ⟨_, _, rfl, rfl, fun other hne => ?_, style_sample h⟩
    exact Fields.lookup_cons_ne hne _ _
  · rintro ⟨v, w, rfl, hn, hsame, hstyle⟩
    by_contra hk
    apply hstyle
    apply style_of_readKeys hn.symm
    intro other ho
    exact hsame other fun he => hk (he ▸ ho)

theorem map_eq_of_forall₂ {α β : Type} {f : α → β} {xs ys : List α}
    (h : List.Forall₂ (fun x y => f x = f y) xs ys) : xs.map f = ys.map f := by
  rw [← List.forall₂_eq_eq_eq, List.forall₂_map_left_iff, List.forall₂_map_right_iff]
  exact h

/-- What is built of a widget, and the unknown names in it, come from its name, its text and the arguments
that are read, and from the widgets inside. -/
theorem ReadAlike.ofWidget_eq (h : ReadAlike v w) :
    Element.ofWidget v = Element.ofWidget w ∧ v.unknownNames = w.unknownNames := by
  induction v using contentInduct generalizing w with
  | node v ih =>
    obtain ⟨hn, ht, hv, hw, hread, hcontent⟩ := h
    have hstyle : v.style = w.style :=
      style_of_readKeys hn fun key hk => Fields.get?_congr hv hw (hread key hk)
    have hinside : List.Forall₂ (fun x y => x ∈ v.content.toList ∧ ReadAlike x y)
        v.content.toList w.content.toList :=
      (List.forall₂_and_left _ _).mpr ⟨fun _ hx => hx, hcontent.toList⟩
    have helements : v.content.toList.map Element.ofWidget = w.content.toList.map Element.ofWidget :=
      map_eq_of_forall₂ (hinside.imp fun x _ hxy => (ih x hxy.1 hxy.2).1)
    have hnames : v.content.toList.map unknownNames = w.content.toList.map unknownNames :=
      map_eq_of_forall₂ (hinside.imp fun x _ hxy => (ih x hxy.1 hxy.2).2)
    constructor
    · rw [Element.ofWidget_node, Element.ofWidget_node, hn, ht, hstyle, helements]
    · rw [unknownNames_eq, unknownNames_eq, hn, List.flatMap_def, List.flatMap_def, hnames]

end

end Widget

/-- Of two trees that are alike in all that is read, a builder makes the same element, whatever it built
before, and keeps the same warnings; so they are written as the same markup. -/
theorem Builder.build_of_readAlike {v w : Widget} (h : v.ReadAlike w) (b : Builder) :
    (build v).run b = (build w).run b ∧
      (Conversion.ofWidget v).output = (Conversion.ofWidget w).output ∧
      (Conversion.ofWidget v).warnings = (Conversion.ofWidget w).warnings := by
  obtain ⟨helement, hnames⟩ := h.ofWidget_eq
  refine ⟨?_, ?_, ?_⟩
  · rw [run_build, run_build, helement, hnames]
  · rw [Conversion.output, Conversion.output, Conversion.ofWidget, Conversion.ofWidget, helement]
  · simp only [Conversion.warnings, Conversion.unknownNames, Conversion.ofWidget,
      Widget.allUnknownNames, List.flatMap_singleton, hnames]

/-- Arguments in another order, and more of them that no rule reads, in a tree of two widgets. -/
theorem Builder.build_box_reordered :
    let box (outer inner : List (String × Argument Widget)) : Widget :=
      ⟨"Container", ⟨outer⟩, none, .child ⟨"Card", ⟨inner⟩, none, .none⟩⟩
    let v := box [("width", .number "2"), ("color", .reference "Colors.red")] []
    let w := box [("color", .reference "Colors.red"), ("clip", .boolean true), ("width", .number "2")]
      [("elevation", .number "4")]
    v.ReadAlike w ∧ (build v).run new = (build w).run new := by
  intro box v w
  have hcard : Widget.ReadAlike ⟨"Card", ⟨[]⟩, none, .none⟩ ⟨"Card", ⟨[("elevation", .number "4")]⟩, none, .none⟩ :=
    .node rfl rfl (by decide) (by decide) (by simp [Widget.readKeys]) .none
  have hread : ∀ key ∈ Widget.readKeys v.name, ∀ value,
      (key, value) ∈ v.arguments.entries ↔ (key, value) ∈ w.arguments.entries := by
    simp [v, w, box, Widget.readKeys]
  have h : v.ReadAlike w := .node rfl rfl (by decide) (by decide) hread (.child hcard)
  exact ⟨h, (build_of_readAlike h new).1⟩

end WidgetJsx
