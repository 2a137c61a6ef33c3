import WidgetJsx.Proofs.Attribute
import WidgetJsx.Proofs.ColorRange
import WidgetJsx.Proofs.Excerpt

/-! Where the texts in a style come from. Each is an excerpt of the source, or it is a keyword or a color
without any white space. -/

namespace WidgetJsx

open Text

namespace Style

/-- No character of the text is white space. -/
abbrev Unbroken (s : String) : Prop := (s.toList.all fun c => !isBlank c) = true

theorem unbroken_iff {s : String} : Unbroken s ↔ ∀ c ∈ s.toList, isBlank c = false := by
  simp [Unbroken]

def DrawnFrom (source : List Char) (s : String) : Prop := s.toList.Sublist source ∨ Unbroken s

/-- The value is a number, or its text comes from the source. -/
def Value.DrawnFrom (source : List Char) (value : Value) : Prop :=
  ∀ s, value = .text s → Style.DrawnFrom source s

abbrev Draws (source : List Char) (style : Style) : Prop :=
  style.Each fun entry => entry.2.DrawnFrom source

variable {source : List Char} {style : Style}

theorem draws_of_numbers {keys : List String} (h : KeepsTo (numbers keys) style) :
    Draws source style := by
  intro entry hm s ht
  obtain ⟨kind, hk, ha⟩ := h entry hm
  obtain ⟨key, -, he⟩ := List.mem_map.mp hk
  obtain rfl : Kind.number = kind := congrArg Prod.snd he
  rw [ht] at ha
  exact absurd ha id

theorem draws_ofTexts {entries : List (String × String)} (h : ∀ entry ∈ entries, DrawnFrom source entry.2) :
    Draws source (ofTexts entries) := by
  apply Fields.Each.ofList
  intro entry hm
  obtain ⟨given, hg, rfl⟩ := List.mem_map.mp hm
  intro s ht
  exact Value.text.inj ht ▸ h given hg

theorem unbroken_mainAxis (text : String) : Unbroken (mainAxis text) := by
  unfold mainAxis
  split <;> decide

theorem unbroken_crossAxis (text : String) : Unbroken (crossAxis text) := by
  unfold crossAxis
  split <;> decide

theorem unbroken_textAlign (text : String) : Unbroken (textAlign text) := by
  unfold textAlign
  split <;> decide

theorem unbroken_alignment? {text down across : String} (h : alignment? text = some (down, across)) :
    Unbroken down ∧ Unbroken across := by
  unfold alignment? at h
  split at h
  all_goals cases h
  all_goals decide

theorem unbroken_fontWeight (text : String) : Unbroken (fontWeight text) := by
  unfold fontWeight
  split <;> decide

theorem unbroken_fontStyle (text : String) : Unbroken (fontStyle text) := by
  unfold fontStyle
  split <;> decide

theorem IsColor.unbroken {s : String} (h : IsColor s) : Unbroken s := by
  cases h with
  | hex _ hd =>
    rw [unbroken_iff, String.toList_ofList]
    refine List.forall_mem_cons.mpr ⟨by decide, fun c hc => ?_⟩
    exact Expression.isBlank_eq_false_of_isNameChar (Expression.isNameChar_of_isHexDigit (hd c hc))
  | transparent => decide

theorem drawn_color {text : String} (h : text.toList.Sublist source) : DrawnFrom source (color text) := by
  rcases isColor_or_eq_trimmed text with hc | hc
  · exact .inr hc.unbroken
  · rw [hc]
    refine .inl ?_
    rw [trimmed, String.toList_ofList]
    exact (trim_sublist _).trans h

theorem drawn_dimension {a : Argument Widget} {value : Value} (h : a.ExcerptOf source)
    (hv : a.dimension? = some value) : value.DrawnFrom source := by
  rintro s rfl
  refine .inl (h s ?_)
  cases a with
  | number text =>
    cases hx : numberIn? text with
    | none => simpa [Argument.dimension?, Argument.text?, hx] using hv
    | some x => simp [Argument.dimension?, hx] at hv
  | string | boolean | reference | construction | raw =>
    cases hv
    rfl
  | widget | widgets => cases hv

theorem draws_styled {text? : Option String} {key : String} {value : String → String}
    (h : ∀ text ∈ text?, DrawnFrom source (value text)) :
    Draws source (Widget.styled text? key value) := by
  apply draws_ofTexts
  intro entry hm
  obtain ⟨text, ht, rfl⟩ := List.mem_map.mp hm
  exact h text (Option.mem_toList.mp ht)

end Style

namespace Widget

open Style

variable {source : List Char}

theorem draws_styled_id {text? : Option String} {key : String}
    (h : ∀ text ∈ text?, text.toList.Sublist source) : Draws source (styled text? key id) :=
  draws_styled fun text ht => .inl (h text ht)

theorem draws_keyword {text? : Option String} {key : String} {value : String → String}
    (h : ∀ text, Unbroken (value text)) : Draws source (styled text? key value) :=
  draws_styled fun text _ => .inr (h text)

theorem draws_color {text? : Option String} {key : String}
    (h : ∀ text ∈ text?, text.toList.Sublist source) : Draws source (styled text? key color) :=
  draws_styled fun text ht => drawn_color (h text ht)

theorem draws_alignmentStyle (text? : Option String) : Draws source (alignmentStyle text?) := by
  unfold alignmentStyle
  split
  · rename_i down across h
    obtain ⟨text, -, h⟩ := Option.bind_eq_some_iff.mp h
    obtain ⟨hd, ha⟩ := unbroken_alignment? h
    refine draws_ofTexts fun entry hm => .inr ?_
    simp only [List.mem_cons, List.not_mem_nil, or_false] at hm
    rcases hm with rfl | rfl
    · exact hd
    · exact ha
  · exact .empty

theorem draws_padding (text : String) : Draws source (padding text) :=
  draws_of_numbers (keeps_padding text)

theorem draws_margin (text : String) : Draws source (margin text) :=
  draws_of_numbers (keeps_margin text)

theorem draws_corners (text : String) : Draws source (corners text).style := by
  obtain ⟨alike, h⟩ := keeps_corners text
  exact draws_of_numbers h

theorem exists_of_construction? {text? : Option String} {name : String} {c : Construction}
    (h : construction? text? name = some c) : ∃ text, text? = some text ∧ Construction.read text = .ok c := by
  obtain ⟨text, ht, h⟩ := Option.bind_eq_some_iff.mp h
  refine ⟨text, ht, ?_⟩
  split at h
  · rename_i found hr
    split at h
    · exact Option.some.inj h ▸ hr
    · cases h
  · cases h

/-- The arguments of a widget or of a construction, each an excerpt of the source. -/
abbrev Excerpts (source : List Char) (fs : Fields (Argument Widget)) : Prop :=
  fs.Each fun entry => entry.2.ExcerptOf source

variable {fs : Fields (Argument Widget)} {c : Construction}

theorem excerpts_named {text : String} (h : Construction.read text = .ok c)
    (ht : text.toList.Sublist source) : Excerpts source c.named :=
  fun entry hm => ((Construction.read_excerpts h).2 entry hm).mono ht

theorem text_sublist (h : Excerpts source fs) {key text : String}
    (ht : text ∈ fs.get? key >>= Argument.text?) : text.toList.Sublist source := by
  obtain ⟨a, ha, ht⟩ := Option.bind_eq_some_iff.mp ht
  exact h.get? ha text ht

theorem drawn_size (h : Excerpts source fs) {key : String} {value : Value}
    (hv : (fs.get? key >>= Argument.dimension?) = some value) : value.DrawnFrom source := by
  obtain ⟨a, ha, hv⟩ := Option.bind_eq_some_iff.mp hv
  exact drawn_dimension (h.get? ha) hv

theorem draws_border {text : String} (h : text.toList.Sublist source) : Draws source (border text) := by
  have hwidth {x? : Option Binary64} (hf : ∀ x ∈ x?, x.isFinite = true) :
      Draws source (ofNumbers [("borderWidth", x?)]) := by
    have hkeeps : KeepsTo (numbers ["borderWidth"]) (ofNumbers [("borderWidth", x?)]) :=
      keeps_ofNumber (mem_numbers List.mem_cons_self) hf
    exact draws_of_numbers hkeeps
  unfold border
  split
  · rename_i c hc
    split
    · refine (hwidth fun _ => isFinite_of_literal_bind).setAll fun entry hm => ?_
      obtain ⟨value, hv, rfl⟩ := List.mem_map.mp hm
      have hexcerpts : Excerpts source c.named := by
        refine excerpts_named hc ?_
        rw [trimmed, String.toList_ofList]
        exact (trim_sublist _).trans h
      intro s hs
      obtain rfl := Value.text.inj hs
      exact drawn_color (text_sublist hexcerpts (Option.mem_toList.mp hv))
    · exact .empty
  · exact .empty

theorem draws_decorationStyle (h : Excerpts source c.named) : Draws source (decorationStyle c) :=
  ((draws_color fun _ => text_sublist h).extend (.getD fun text _ => draws_corners text)).extend
    (.getD fun _ ht => draws_border (text_sublist h ht))

theorem draws_letterStyle (h : Excerpts source c.named) : Draws source (letterStyle c) := by
  have hsize (key : String) :
      Draws source (.ofList ((c.argument? key >>= Argument.dimension?).toList.map (key, ·))) := by
    apply Fields.Each.ofList
    intro entry hm
    obtain ⟨value, hv, rfl⟩ := List.mem_map.mp hm
    exact drawn_size h (Option.mem_toList.mp hv)
  exact (((((draws_color fun _ => text_sublist h).extend (hsize "fontSize")).extend
    (draws_keyword unbroken_fontWeight)).extend (draws_keyword unbroken_fontStyle)).extend
      (draws_styled_id fun _ => text_sublist h)).extend (hsize "letterSpacing")

section

variable {w : Widget} (h : Excerpts source w.arguments)

include h

theorem draws_construction {key name : String} {style : Construction → Style}
    (hs : ∀ c : Construction, Excerpts source c.named → Draws source (style c)) :
    Draws source (((construction? (w.argumentText? key) name).map style).getD ∅) := by
  refine .getD fun c hc => hs c ?_
  obtain ⟨text, ht, hr⟩ := exists_of_construction? hc
  exact excerpts_named hr (text_sublist h ht)

theorem draws_dimensions (keys : List String) : Draws source (w.dimensions keys) := by
  apply Fields.Each.ofList
  intro entry hm
  obtain ⟨key, -, he⟩ := List.mem_filterMap.mp hm
  obtain ⟨value, hv, rfl⟩ := Option.map_eq_some_iff.mp he
  exact drawn_size h hv

theorem draws_containerStyle : Draws source w.containerStyle :=
  (((((draws_dimensions h _).extend (draws_color fun _ => text_sublist h)).extend
    (draws_alignmentStyle _)).extend (draws_construction h fun _ => draws_decorationStyle)).extend
      (.getD fun text _ => draws_padding text)).extend (.getD fun text _ => draws_margin text)

theorem draws_shareStyle : Draws source w.shareStyle := by
  apply Fields.Each.ofList
  refine List.forall_mem_singleton.mpr ?_
  cases hv : w.argument? "flex" >>= Argument.dimension? with
  | none => exact fun s hs => Value.noConfusion hs
  | some value => exact drawn_size h hv

/-- Whatever kind of widget it is, the texts in its style come from the source. -/
theorem draws_style : Draws source w.style := by
  have hwords {entries : List (String × String)} (hu : ∀ entry ∈ entries, Unbroken entry.2) :
      Draws source (ofTexts entries) := draws_ofTexts fun entry hm => .inr (hu entry hm)
  have hflex {direction : String} (hu : Unbroken direction) : Draws source (w.flexStyle direction) :=
    ((hwords (List.forall_mem_singleton.mpr hu)).extend (draws_keyword unbroken_mainAxis)).extend
      (draws_keyword unbroken_crossAxis)
  have htext : Draws source w.textStyle :=
    (draws_construction h fun _ => draws_letterStyle).extend (draws_keyword unbroken_textAlign)
  unfold style
  split
  · exact draws_containerStyle h
  · exact htext
  · exact htext
  · exact hflex (by decide)
  · exact hflex (by decide)
  · exact hwords (by decide)
  · exact (hwords (by decide)).extend (draws_dimensions h _)
  · exact draws_shareStyle h
  · exact draws_shareStyle h
  · exact draws_dimensions h _
  · exact .getD fun text _ => draws_padding text
  · exact hwords (by decide)
  · exact draws_dimensions h _
  · exact .empty

end

end Widget

end WidgetJsx
