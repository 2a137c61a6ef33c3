import WidgetJsx.Element.OfWidget
import WidgetJsx.Proofs.RespacedValue

/-! The styles of widgets from two texts that differ in a gap. Numbers and keywords are the same; a text of a
style is the same unless the gap shows in it, or in a text that a channel of a color is read from. -/

namespace WidgetJsx

open Expression Text

variable {core : List Char} {R : Widget → Widget → Prop} {t t' : String}

/-! ### Insets, corners and borders -/

namespace Construction.Alike

variable {c c' : Construction}

theorem argument? (h : c.Alike core R c') (key : String) :
    Option.Rel (Argument.Alike core R) (c.argument? key) (c'.argument? key) := h.named.get? key

theorem argumentText? (h : c.Alike core R c') (key : String) :
    Option.Rel (Kept core) (c.argumentText? key) (c'.argumentText? key) :=
  rel_bind (h.argument? key) fun _ _ ha => ha.text?

theorem argument_literal? (h : c.Alike core R c') (key : String) :
    c.argument? key >>= Argument.literal? = c'.argument? key >>= Argument.literal? :=
  bind_eq_bind (h.argument? key) fun _ _ ha => ha.literal?

theorem head? (h : c.Alike core R c') :
    Option.Rel (Argument.Alike core R) c.positional.head? c'.positional.head? := by
  simpa only [List.head?_eq_getElem?] using rel_getElem? h.positional 0

theorem head_literal? (h : c.Alike core R c') :
    c.positional.head? >>= Argument.literal? = c'.positional.head? >>= Argument.literal? :=
  bind_eq_bind h.head? fun _ _ ha => ha.literal?

theorem namedSides (h : c.Alike core R c') (sides : List (String × String)) :
    Style.namedSides c sides = Style.namedSides c' sides := by
  simp only [Style.namedSides, h.argument_literal?]

theorem positionalSides (h : c.Alike core R c') (keys : List String) :
    Style.positionalSides c keys = Style.positionalSides c' keys := by
  have hmap : c.positional.map Argument.literal? = c'.positional.map Argument.literal? := by
    have hpositional := h.positional
    generalize c.positional = values, c'.positional = values' at hpositional
    induction hpositional with
    | nil => rfl
    | cons ha _ ih => rw [List.map_cons, List.map_cons, ha.literal?, ih]
  have hzip : ∀ arguments : List (Argument Widget),
      ((keys.zip arguments).map fun given => (given.1, given.2.literal?)) =
        keys.zip (arguments.map Argument.literal?) := by
    intro arguments
    rw [List.zip_map_right]
    rfl
  rw [Style.positionalSides, Style.positionalSides, h.positional.length_eq, hzip, hzip, hmap]

theorem constructedInsets (h : c.Alike core R c') :
    Style.constructedInsets c = Style.constructedInsets c' := by
  unfold Style.constructedInsets
  rw [h.name_eq]
  split
  · rw [h.head_literal?]
  · rw [h.head_literal?]
  · rw [h.namedSides]
  · rw [h.namedSides]
  · rw [h.namedSides]
  · rw [h.namedSides]
  · rw [h.positionalSides]
  · rw [h.positionalSides]
  · rfl

end Construction.Alike

theorem Expression.Kept.padding (h : Kept core t t') : Style.padding t = Style.padding t' := by
  have hread := h.read
  cases h with
  | same => rfl
  | parted hp =>
    have hzero := hp.ne (by decide : DottedPath "EdgeInsets.zero".toList)
    have hdirected := hp.ne (by decide : DottedPath "EdgeInsetsDirectional.zero".toList)
    simp only [Style.padding, hp.trimmed_eq.1, hp.trimmed_eq.2, hzero.1, hzero.2, hdirected.1, hdirected.2,
      or_self, if_false]
    rcases hread with ⟨c, c', hr, hr', halike⟩ | ⟨fault, fault', hr, hr'⟩
    · simp only [hr, hr', halike.constructedInsets]
    · simp only [hr, hr']

theorem Expression.Kept.margin (h : Kept core t t') : Style.margin t = Style.margin t' := by
  rw [Style.margin, Style.margin, h.padding]

theorem Argument.Alike.radius? {a a' : Argument Widget} (h : a.Alike core R a') :
    Style.radius? a = Style.radius? a' := by
  refine bind_eq_bind h.text? fun t t' hk => ?_
  have hread := hk.read
  cases hk with
  | same => rfl
  | parted hp =>
    have hzero := hp.ne (by decide : DottedPath "Radius.zero".toList)
    simp only [hzero.1, hzero.2, if_false]
    rcases hread with ⟨c, c', hr, hr', halike⟩ | ⟨fault, fault', hr, hr'⟩
    · simp only [hr, hr', halike.name_eq, halike.head_literal?]
    · simp only [hr, hr']

theorem Construction.Alike.constructedCorners {c c' : Construction} (h : c.Alike core R c') :
    Style.constructedCorners c = Style.constructedCorners c' := by
  have hnamed : ∀ corners, Style.namedCorners c corners = Style.namedCorners c' corners := by
    intro corners
    have hradius : ∀ key, c.argument? key >>= Style.radius? = c'.argument? key >>= Style.radius? :=
      fun key => bind_eq_bind (h.argument? key) fun _ _ ha => ha.radius?
    simp only [Style.namedCorners, hradius]
  unfold Style.constructedCorners
  rw [h.name_eq]
  split
  · rw [h.head_literal?]
  · rw [bind_eq_bind h.head? fun _ _ ha => ha.radius?]
  · rw [hnamed]
  · rw [hnamed]
  · rw [hnamed]
  · rfl

theorem Expression.Kept.corners (h : Kept core t t') : Style.corners t = Style.corners t' := by
  have hread := h.read
  cases h with
  | same => rfl
  | parted hp =>
    have hzero := hp.ne (by decide : DottedPath "BorderRadius.zero".toList)
    simp only [Style.corners, hp.trimmed_eq.1, hp.trimmed_eq.2, hzero.1, hzero.2, if_false]
    rcases hread with ⟨c, c', hr, hr', halike⟩ | ⟨fault, fault', hr, hr'⟩
    · simp only [hr, hr', halike.constructedCorners]
    · simp only [hr, hr']

namespace Style

/-- The text that the color of a border is read from. -/
def borderColor? (text : String) : Option String :=
  match Construction.read (Text.trimmed text) with
  | .ok c => if c.name = "Border.all" then c.argumentText? "color" else none
  | .error _ => none

end Style

namespace Widget

/-- The texts that the colors of a decoration are read from. -/
def decorationColors (c : Construction) : List String :=
  (c.argumentText? "color").toList ++ (c.argumentText? "border" >>= Style.borderColor?).toList

/-- The texts that the colors of a widget's style are read from. -/
def colors (w : Widget) : List String :=
  match w.name with
  | "Container" => (w.argumentText? "color").toList ++
      ((construction? (w.argumentText? "decoration") "BoxDecoration").toList.flatMap decorationColors)
  | "Text" | "SelectableText" =>
      (construction? (w.argumentText? "style") "TextStyle" >>= (·.argumentText? "color")).toList
  | _ => []

end Widget

/-- The gap does not show in the channels of a color. -/
def Unshown (core : List Char) (color : String) : Prop :=
  ∀ text ∈ Style.channels color, ¬ core <:+: text.toList

/-! ### Styles -/

section

variable {text? text?' : Option String} {value : String → String}

theorem Widget.alike_styled (h : Option.Rel (Kept core) text? text?') (key : String)
    (hv : ∀ t t', t ∈ text? → Kept core t t' →
      (Style.Value.text (value t)).Alike core (.text (value t'))) :
    (styled text? key value).Alike (Style.Value.Alike core) (styled text?' key value) := by
  cases h with
  | none => exact .empty
  | some h => exact .ofList (.cons ⟨rfl, hv _ _ rfl h⟩ .nil)

theorem Widget.alike_styled_of_eq (h : Option.Rel (Kept core) text? text?') (key : String)
    (hv : ∀ t t', Kept core t t' → value t = value t') :
    (styled text? key value).Alike (Style.Value.Alike core) (styled text?' key value) :=
  alike_styled h key fun t t' _ hk => hv t t' hk ▸ .same _

theorem Widget.alike_styled_color (hcore : '/' ∈ core) (h : Option.Rel (Kept core) text? text?')
    (hc : ∀ color ∈ text?, Unshown core color) (key : String) :
    (styled text? key Style.color).Alike (Style.Value.Alike core) (styled text?' key Style.color) :=
  alike_styled h key fun t _ ht hk => hk.color hcore (hc t ht)

theorem alike_getD {α α' : Type} {P : α → α' → Prop} {x : Option α} {x' : Option α'} (h : Option.Rel P x x')
    {f : α → Style} {f' : α' → Style}
    (hf : ∀ a a', a ∈ x → P a a' → (f a).Alike (Style.Value.Alike core) (f' a')) :
    ((x.map f).getD ∅).Alike (Style.Value.Alike core) ((x'.map f').getD ∅) := by
  cases h with
  | none => exact .empty
  | some h => exact hf _ _ rfl h

theorem alike_getD_of_eq (h : Option.Rel (Kept core) text? text?') {f : String → Style}
    (hf : ∀ t t', Kept core t t' → f t = f t') :
    ((text?.map f).getD ∅).Alike (Style.Value.Alike core) ((text?'.map f).getD ∅) :=
  alike_getD h fun t t' _ hk => hf t t' hk ▸ .refl .same _

theorem Widget.rel_construction? (h : Option.Rel (Kept core) text? text?') (name : String) :
    Option.Rel (Construction.Alike core fun _ _ => True) (construction? text? name)
      (construction? text?' name) := by
  refine rel_bind h fun t t' hk => ?_
  rcases hk.read with ⟨c, c', hr, hr', halike⟩ | ⟨fault, fault', hr, hr'⟩
  · simp only [hr, hr', halike.name_eq]
    split
    · exact .some halike
    · exact .none
  · simp only [hr, hr']
    exact .none

end

theorem Expression.Kept.value (h : Kept core t t') : (Style.Value.text t).Alike core (.text t') := by
  cases h with
  | same => exact .same _
  | parted hp => exact .shows hp.shows

theorem Argument.Alike.dimension? {a a' : Argument Widget} (h : a.Alike core R a') :
    Option.Rel (Style.Value.Alike core) a.dimension? a'.dimension? := by
  cases h with
  | string text => exact .some (.same _)
  | number text => exact .some (.same _)
  | boolean value => exact .some (.same _)
  | reference path => exact .some (.same _)
  | construction h => exact .some h.value
  | widget => exact .none
  | widgets => exact .none
  | raw h => exact .some h.value

theorem Expression.Kept.border (h : Kept core t t') (hcore : '/' ∈ core)
    (hc : ∀ color ∈ Style.borderColor? t, Unshown core color) :
    (Style.border t).Alike (Style.Value.Alike core) (Style.border t') := by
  have hread := h.read
  cases h with
  | same => exact .refl .same _
  | parted hp =>
    simp only [Style.border, Style.borderColor?, hp.trimmed_eq.1, hp.trimmed_eq.2] at hc ⊢
    rcases hread with ⟨c, c', hr, hr', halike⟩ | ⟨fault, fault', hr, hr'⟩
    · simp only [hr, hr', halike.name_eq, halike.argument_literal?] at hc ⊢
      split
      next hn =>
        rw [if_pos hn] at hc
        refine Fields.Alike.setAll (.refl .same _) ?_
        have hcolor := halike.argumentText? "color"
        generalize c.argumentText? "color" = text?, c'.argumentText? "color" = text?' at hc hcolor
        cases hcolor with
        | none => exact .nil
        | some hk => exact .cons ⟨rfl, hk.color hcore (hc _ rfl)⟩ .nil
      · exact .empty
    · simp only [hr, hr']
      exact .empty

namespace Construction.Alike

variable {c c' : Construction}

theorem dimension? (h : c.Alike core R c') (key : String) : Option.Rel (Style.Value.Alike core)
    (c.argument? key >>= Argument.dimension?) (c'.argument? key >>= Argument.dimension?) :=
  rel_bind (h.argument? key) fun _ _ ha => ha.dimension?

theorem size (h : c.Alike core R c') (key : String) :
    (Fields.ofList ((c.argument? key >>= Argument.dimension?).toList.map (key, ·))).Alike
      (Style.Value.Alike core)
      (Fields.ofList ((c'.argument? key >>= Argument.dimension?).toList.map (key, ·))) := by
  have hd := h.dimension? key
  generalize (c.argument? key >>= Argument.dimension?) = x,
    (c'.argument? key >>= Argument.dimension?) = x' at hd
  cases hd with
  | none => exact .empty
  | some hx => exact .ofList (.cons ⟨rfl, hx⟩ .nil)

theorem decorationStyle (h : c.Alike core R c') (hcore : '/' ∈ core)
    (hc : ∀ color ∈ Widget.decorationColors c, Unshown core color) :
    (Widget.decorationStyle c).Alike (Style.Value.Alike core) (Widget.decorationStyle c') := by
  have hcolor : ∀ color ∈ c.argumentText? "color", Unshown core color :=
    fun color hm => hc color (List.mem_append_left _ (Option.mem_toList.mpr hm))
  have hborder : ∀ t ∈ c.argumentText? "border", ∀ color ∈ Style.borderColor? t, Unshown core color := by
    refine fun t ht color hm => hc color (List.mem_append_right _ (Option.mem_toList.mpr ?_))
    rw [Option.mem_def.mp ht]
    exact hm
  exact ((Widget.alike_styled_color hcore (h.argumentText? "color") hcolor _).extend
    (alike_getD (h.argumentText? "borderRadius") fun t t' _ hk => hk.corners ▸ .refl .same _)).extend
    (alike_getD (h.argumentText? "border") fun t t' ht hk => hk.border hcore (hborder t ht))

theorem letterStyle (h : c.Alike core R c') (hcore : '/' ∈ core)
    (hc : ∀ color ∈ c.argumentText? "color", Unshown core color) :
    (Widget.letterStyle c).Alike (Style.Value.Alike core) (Widget.letterStyle c') := by
  have hcolor := Widget.alike_styled_color hcore (h.argumentText? "color") hc "color"
  have hweight := Widget.alike_styled_of_eq (h.argumentText? "fontWeight") "fontWeight"
    fun t t' hk => hk.eq_of_constants fun _ => Style.fontWeight_of_not_path
  have hstyle := Widget.alike_styled_of_eq (h.argumentText? "fontStyle") "fontStyle"
    fun t t' hk => hk.eq_of_constants fun _ => Style.fontStyle_of_not_path
  have hfamily := Widget.alike_styled (h.argumentText? "fontFamily") "fontFamily" fun t t' _ hk => hk.value
  exact ((((hcolor.extend (h.size "fontSize")).extend hweight).extend hstyle).extend hfamily).extend
    (h.size "letterSpacing")

end Construction.Alike

namespace Widget.Alike

variable {w w' : Widget}

theorem argument? (h : w.Alike core R w') (key : String) :
    Option.Rel (Argument.Alike core R) (w.argument? key) (w'.argument? key) := h.arguments.get? key

theorem argumentText? (h : w.Alike core R w') (key : String) :
    Option.Rel (Kept core) (w.argumentText? key) (w'.argumentText? key) :=
  rel_bind (h.argument? key) fun _ _ ha => ha.text?

theorem dimension? (h : w.Alike core R w') (key : String) : Option.Rel (Style.Value.Alike core)
    (w.argument? key >>= Argument.dimension?) (w'.argument? key >>= Argument.dimension?) :=
  rel_bind (h.argument? key) fun _ _ ha => ha.dimension?

theorem dimensions (h : w.Alike core R w') (keys : List String) :
    (w.dimensions keys).Alike (Style.Value.Alike core) (w'.dimensions keys) := by
  refine Fields.Alike.ofList (List.rel_filterMap ?_
    (List.forall₂_eq_eq_eq.symm ▸ rfl : List.Forall₂ Eq keys keys))
  rintro key _ rfl
  beta_reduce
  have hd := h.dimension? key
  generalize (w.argument? key >>= Argument.dimension?) = x,
    (w'.argument? key >>= Argument.dimension?) = x' at hd
  cases hd with
  | none => exact .none
  | some hx => exact .some ⟨rfl, hx⟩

theorem alignmentStyle {text? text?' : Option String} (h : Option.Rel (Kept core) text? text?') :
    Widget.alignmentStyle text? = Widget.alignmentStyle text?' := by
  have heq : text? >>= Style.alignment? = text?' >>= Style.alignment? :=
    bind_eq_bind h fun t t' hk => hk.eq_of_constants fun _ => Style.alignment?_of_not_path
  rw [Widget.alignmentStyle, Widget.alignmentStyle, heq]

theorem containerStyle (h : w.Alike core R w') (hcore : '/' ∈ core)
    (hc : ∀ color ∈ w.argumentText? "color", Unshown core color)
    (hd : ∀ c ∈ construction? (w.argumentText? "decoration") "BoxDecoration",
      ∀ color ∈ decorationColors c, Unshown core color) :
    w.containerStyle.Alike (Style.Value.Alike core) w'.containerStyle := by
  have hcolor := alike_styled_color hcore (h.argumentText? "color") hc "backgroundColor"
  have halignment : (Widget.alignmentStyle (w.argumentText? "alignment")).Alike (Style.Value.Alike core)
      (Widget.alignmentStyle (w'.argumentText? "alignment")) :=
    alignmentStyle (h.argumentText? "alignment") ▸ .refl .same _
  have hdecoration := alike_getD (rel_construction? (h.argumentText? "decoration") "BoxDecoration")
    fun c c' hm hk => hk.decorationStyle hcore (hd c hm)
  have hpadding := alike_getD_of_eq (h.argumentText? "padding") fun t t' hk => hk.padding
  have hmargin := alike_getD_of_eq (h.argumentText? "margin") fun t t' hk => hk.margin
  exact (((((h.dimensions ["width", "height"]).extend hcolor).extend halignment).extend hdecoration).extend
    hpadding).extend hmargin

theorem textStyle (h : w.Alike core R w') (hcore : '/' ∈ core)
    (hc : ∀ c ∈ construction? (w.argumentText? "style") "TextStyle",
      ∀ color ∈ c.argumentText? "color", Unshown core color) :
    w.textStyle.Alike (Style.Value.Alike core) w'.textStyle := by
  have hletter := alike_getD (rel_construction? (h.argumentText? "style") "TextStyle")
    fun c c' hm hk => hk.letterStyle hcore (hc c hm)
  exact hletter.extend (alike_styled_of_eq (h.argumentText? "textAlign") "textAlign"
    fun t t' hk => hk.eq_of_constants fun _ => Style.textAlign_of_not_path)

theorem flexStyle (h : w.Alike core R w') (direction : String) :
    (w.flexStyle direction).Alike (Style.Value.Alike core) (w'.flexStyle direction) := by
  have hmain := alike_styled_of_eq (h.argumentText? "mainAxisAlignment") "justifyContent"
    fun t t' hk => hk.eq_of_constants fun _ => Style.mainAxis_of_not_path
  have hcross := alike_styled_of_eq (h.argumentText? "crossAxisAlignment") "alignItems"
    fun t t' hk => hk.eq_of_constants fun _ => Style.crossAxis_of_not_path
  exact ((Fields.Alike.refl .same _).extend hmain).extend hcross

theorem shareStyle (h : w.Alike core R w') : w.shareStyle.Alike (Style.Value.Alike core) w'.shareStyle := by
  have hd := h.dimension? "flex"
  unfold Widget.shareStyle
  generalize (w.argument? "flex" >>= Argument.dimension?) = x,
    (w'.argument? "flex" >>= Argument.dimension?) = x' at hd
  cases hd with
  | none => exact .refl .same _
  | some hx => exact .ofList (.cons ⟨rfl, hx⟩ .nil)

/-- The styles of widgets that are alike, where no gap shows in the channels of a color. -/
theorem style (h : w.Alike core R w') (hcore : '/' ∈ core) (hc : ∀ color ∈ w.colors, Unshown core color) :
    w.style.Alike (Style.Value.Alike core) w'.style := by
  unfold Widget.style
  unfold Widget.colors at hc
  rw [h.name_eq]
  split
  next hn =>
    simp only [hn] at hc
    refine h.containerStyle hcore (fun color hm => hc color ?_) fun c hm color hcolor => hc color ?_
    · exact List.mem_append_left _ (Option.mem_toList.mpr hm)
    · exact List.mem_append_right _ (List.mem_flatMap.mpr ⟨c, Option.mem_toList.mpr hm, hcolor⟩)
  next hn =>
    simp only [hn] at hc
    refine h.textStyle hcore fun c hm color hcolor => hc color (Option.mem_toList.mpr ?_)
    exact Option.mem_bind_iff.mpr ⟨c, hm, hcolor⟩
  next hn =>
    simp only [hn] at hc
    refine h.textStyle hcore fun c hm color hcolor => hc color (Option.mem_toList.mpr ?_)
    exact Option.mem_bind_iff.mpr ⟨c, hm, hcolor⟩
  · exact h.flexStyle "row"
  · exact h.flexStyle "column"
  · exact .refl .same _
  · exact (Fields.Alike.refl .same _).extend (h.dimensions _)
  · exact h.shareStyle
  · exact h.shareStyle
  · exact h.dimensions _
  · exact alike_getD_of_eq (h.argumentText? "padding") fun t t' hk => hk.padding
  · exact .refl .same _
  · exact h.dimensions _
  · exact .empty

end Widget.Alike

/-! ### Elements -/

/-- A text is part of one in a style. -/
def Style.Shows (core : List Char) (style : Style) : Prop :=
  ∃ key text, (key, .text text) ∈ style.entries ∧ core <:+: text.toList

/-- A text is part of one in the style of a widget or of a widget inside it, or of one that a channel of a color
in such a style is read from. -/
def Widget.Shows (core : List Char) (w : Widget) : Prop :=
  ∃ v ∈ w.nested, v.style.Shows core ∨ ∃ color ∈ v.colors, ∃ text ∈ Style.channels color, core <:+: text.toList

theorem Style.eq_of_alike {style style' : Style} (h : style.Alike (Style.Value.Alike core) style')
    (hs : ¬ style.Shows core) : style = style' := by
  have hentries : style.entries = style'.entries := by
    refine List.forall₂_eq_eq_eq ▸
      (List.Forall₂.imp ?_ ((List.forall₂_and_left _ _).mpr ⟨fun _ h => h, h⟩))
    rintro ⟨key, x⟩ ⟨key', x'⟩ ⟨hm, rfl, hx⟩
    cases hx with
    | same => rfl
    | shows hx => exact absurd ⟨key, _, hm, hx⟩ hs
  obtain ⟨entries⟩ := style
  obtain ⟨entries'⟩ := style'
  exact congrArg Fields.mk hentries

/-- Widgets with the same names in the same order, which become the same element unless the gap shows. -/
structure Widget.Same (core : List Char) (w w' : Widget) : Prop where
  name_eq : w'.name = w.name
  names_eq : w'.nested.map name = w.nested.map name
  element_eq : ¬ w.Shows core → Element.ofWidget w' = Element.ofWidget w

theorem Element.ofWidget_eq (w : Widget) : ofWidget w =
    ⟨Catalog.component w.name, w.style, if Widget.isTextName w.name then w.text? else none,
      w.content.toList.map ofWidget⟩ := by
  rw [ofWidget]
  simp

section

variable {ws ws' : List Widget}

theorem names_eq_of_same (h : List.Forall₂ (Widget.Same core) ws ws') :
    (ws'.flatMap Widget.nested).map Widget.name = (ws.flatMap Widget.nested).map Widget.name := by
  induction h with
  | nil => rfl
  | cons hsame _ ih =>
    rw [List.flatMap_cons, List.flatMap_cons, List.map_append, List.map_append, hsame.names_eq, ih]

theorem elements_eq_of_same (h : List.Forall₂ (Widget.Same core) ws ws') (hs : ∀ w ∈ ws, ¬ w.Shows core) :
    ws'.map Element.ofWidget = ws.map Element.ofWidget := by
  induction h with
  | nil => rfl
  | cons hsame _ ih =>
    rw [List.map_cons, List.map_cons, hsame.element_eq (hs _ List.mem_cons_self),
      ih fun w hm => hs w (List.mem_cons_of_mem _ hm)]

end

theorem Widget.Alike.same {w w' : Widget} (hcore : '/' ∈ core) (h : w.Alike core (Same core) w') :
    w.Same core w' := by
  refine ⟨h.name_eq, ?_, fun hs => ?_⟩
  · rw [nested_eq, nested_eq, List.map_cons, List.map_cons, h.name_eq, names_eq_of_same h.content.toList]
  · have hstyle : w.style = w'.style := by
      refine Style.eq_of_alike (h.style hcore fun color hm text ht hc => hs ?_) fun hx => hs ?_
      · exact ⟨w, nested_eq w ▸ List.mem_cons_self, .inr ⟨color, hm, text, ht, hc⟩⟩
      · exact ⟨w, nested_eq w ▸ List.mem_cons_self, .inl hx⟩
    have hchildren := elements_eq_of_same h.content.toList (by
      rintro child hm ⟨v, hv, hx⟩
      exact hs ⟨v, nested_eq w ▸ List.mem_cons_of_mem _ (List.mem_flatMap.mpr ⟨child, hm, hv⟩), hx⟩)
    rw [Element.ofWidget_eq, Element.ofWidget_eq w, h.name_eq, h.text_eq, hstyle, hchildren]

/-- Widgets that are read from joined sources are the same, but for a gap that shows. -/
theorem Expression.Swap.Joins.ties_widget {w : Swap} {source source' : String}
    (h : w.Joins core (.ofList source.toList) (.ofList source'.toList)) (hcore : '/' ∈ core) :
    Ties (Widget.Same core) (Widget.read .standard source) (Widget.read .standard source') := by
  intro root hroot
  obtain ⟨-, call, rest, hcall, hdot, hread, hend⟩ := Widget.read_eq_ok_iff.mp hroot
  obtain ⟨⟨call', rest'⟩, hcall', hname, ⟨v, hv⟩, x, hx⟩ := h.ties_readCall _ hcall
  obtain ⟨root', hread', hsame⟩ := respects_readWidget (fun _ _ ha => ha.same hcore)
    Limits.standard.depth Limits.standard.depth call call' v hname hv root hread
  have hsize : source'.utf8ByteSize ≤ Limits.standard.bytes := by simpa [Cursor.ofList, Short] using h.short'
  exact ⟨root', Widget.read_eq_ok_iff.mpr ⟨hsize, call', rest', hcall', hname ▸ hdot, hread',
    hx.expectEnd_eq_ok hend⟩, hsame⟩

end WidgetJsx
