import WidgetJsx.Element.OfWidget
import WidgetJsx.Proofs.Fields

/-! The attributes of a style. Each rule writes attributes from a table of its own, which says what an
attribute may hold; what holds of all the attributes that a rule can write holds of the style that it makes.
In particular every name is made of letters and digits. -/

namespace WidgetJsx

namespace Fields

variable {α : Type} {fs gs : Fields α} {P Q : String × α → Prop}

/-- All entries have a property. -/
def Each (P : String × α → Prop) (fs : Fields α) : Prop := ∀ entry ∈ fs.entries, P entry

theorem Each.empty : Each P ∅ := fun _ h => absurd h List.not_mem_nil

theorem Each.imp (h : fs.Each P) (hpq : ∀ entry, P entry → Q entry) : fs.Each Q :=
  fun entry hm => hpq entry (h entry hm)

theorem Each.setAll {entries : List (String × α)} (h : fs.Each P) (he : ∀ entry ∈ entries, P entry) :
    (fs.setAll entries).Each P :=
  fun entry hm => (mem_setAll hm).elim (h entry) (he entry)

theorem Each.extend (h : fs.Each P) (hg : gs.Each P) : (fs.extend gs).Each P := h.setAll hg

theorem Each.ofList {entries : List (String × α)} (h : ∀ entry ∈ entries, P entry) :
    (ofList entries).Each P :=
  fun entry hm => h entry (mem_ofList hm)

theorem Each.getD {β : Type} {x? : Option β} {f : β → Fields α}
    (h : ∀ x ∈ x?, (f x).Each P) : ((x?.map f).getD ∅).Each P := by
  cases x? with
  | none => exact .empty
  | some x => exact h x rfl

theorem Each.get? (h : fs.Each P) {key : String} {value : α} (hg : fs.get? key = some value) :
    P (key, value) :=
  h _ (mem_of_get? hg)

end Fields

namespace Style

/-- A name made of letters and digits. -/
abbrev IsAttribute (key : String) : Prop := key.toList.all Char.isAlphanum = true

theorem isAlphanum_of_mem {key : String} (h : IsAttribute key) :
    ∀ c ∈ key.toList, c.isAlphanum = true :=
  List.all_eq_true.mp h

/-- All attributes have such names. -/
abbrev Named (style : Style) : Prop := style.Each fun entry => IsAttribute entry.1

/-- What an attribute may hold: a number, a text, or a size, which is one or the other. -/
inductive Kind where
  | number
  | text
  | size
deriving DecidableEq

/-- Numbers are finite in any case. -/
def Kind.Admits : Kind → Value → Prop
  | number, .number x | size, .number x => x.isFinite = true
  | text, .text _ | size, .text _ => True
  | _, _ => False

/-- Attributes with what they may hold. -/
abbrev Table := List (String × Kind)

/-- All attributes are in the table, and hold what it says. -/
def KeepsTo (table : Table) (style : Style) : Prop :=
  style.Each fun entry => ∃ kind, (entry.1, kind) ∈ table ∧ kind.Admits entry.2

def sizes (keys : List String) : Table := keys.map (·, .size)

def texts (keys : List String) : Table := keys.map (·, .text)

def numbers (keys : List String) : Table := keys.map (·, .number)

/-- The space on the sides of a box, inside or outside its edges. -/
def insetTable (space : String) : Table :=
  numbers [space, space ++ "Top", space ++ "Bottom", space ++ "Left", space ++ "Right",
    space ++ "Start", space ++ "End"]

/-- Either all corners are alike or each is its own. -/
def cornerTable (alike : Bool) : Table :=
  numbers (if alike then ["borderRadius"] else ["borderTopLeftRadius", "borderTopRightRadius",
    "borderBottomLeftRadius", "borderBottomRightRadius"])

def borderTable : Table := numbers ["borderWidth"] ++ texts ["borderColor"]

def boxTable (alike : Bool) : Table :=
  sizes ["width", "height"] ++ texts ["backgroundColor", "justifyContent", "alignItems"] ++
    cornerTable alike ++ borderTable ++ insetTable "padding" ++ insetTable "margin"

def letterTable : Table :=
  texts ["color", "fontWeight", "fontStyle", "fontFamily", "textAlign"] ++
    sizes ["fontSize", "letterSpacing"]

def flexTable : Table := texts ["flexDirection", "justifyContent", "alignItems"]

def positionedTable : Table :=
  texts ["position"] ++ sizes ["top", "bottom", "left", "right", "width", "height"]

section

variable {table table' : Table} {style : Style}

theorem KeepsTo.mono (h : KeepsTo table style) (hs : table ⊆ table') : KeepsTo table' style :=
  h.imp fun _ ⟨kind, hm, ha⟩ => ⟨kind, hs hm, ha⟩

theorem mem_texts {keys : List String} {key : String} (h : key ∈ keys) : (key, .text) ∈ texts keys :=
  List.mem_map_of_mem h

theorem mem_sizes {keys : List String} {key : String} (h : key ∈ keys) : (key, .size) ∈ sizes keys :=
  List.mem_map_of_mem h

theorem mem_numbers {keys : List String} {key : String} (h : key ∈ keys) :
    (key, .number) ∈ numbers keys :=
  List.mem_map_of_mem h

theorem keeps_ofNumbers {entries : List (String × Option Binary64)}
    (hk : ∀ entry ∈ entries, (entry.1, .number) ∈ table)
    (hf : ∀ entry ∈ entries, ∀ x ∈ entry.2, x.isFinite = true) : KeepsTo table (ofNumbers entries) := by
  apply Fields.Each.ofList
  intro entry hm
  obtain ⟨source, hs, he⟩ := List.mem_filterMap.mp hm
  obtain ⟨x, hx, rfl⟩ := Option.map_eq_some_iff.mp he
  exact ⟨.number, hk source hs, hf source hs x hx⟩

theorem keeps_ofNumber {key : String} {x? : Option Binary64} (hk : (key, .number) ∈ table)
    (hf : ∀ x ∈ x?, x.isFinite = true) : KeepsTo table (ofNumbers [(key, x?)]) :=
  keeps_ofNumbers (List.forall_mem_singleton.mpr hk) (List.forall_mem_singleton.mpr hf)

theorem keeps_ofTexts {entries : List (String × String)}
    (hk : ∀ entry ∈ entries, (entry.1, .text) ∈ table) : KeepsTo table (ofTexts entries) := by
  apply Fields.Each.ofList
  intro entry hm
  obtain ⟨source, hs, rfl⟩ := List.mem_map.mp hm
  exact ⟨.text, hk source hs, trivial⟩

end

section

variable {x : Binary64}

theorem isFinite_of_numberIn? {text : String} (h : numberIn? text = some x) : x.isFinite = true := by
  obtain ⟨⟨negative, digits⟩, -, hx⟩ := Option.bind_eq_some_iff.mp h
  dsimp only at hx
  split at hx
  · rename_i hf
    obtain rfl := Option.some.inj hx
    exact hf
  · cases hx

theorem isFinite_of_literal? {W : Type} {a : Argument W} (h : x ∈ a.literal?) : x.isFinite = true := by
  cases a with
  | number text => exact isFinite_of_numberIn? h
  | string | boolean | reference | construction | widget | widgets | raw => cases h

theorem isFinite_of_literal_bind {W : Type} {a? : Option (Argument W)}
    (h : x ∈ a? >>= Argument.literal?) : x.isFinite = true := by
  obtain ⟨a, -, ha⟩ := Option.bind_eq_some_iff.mp h
  exact isFinite_of_literal? ha

theorem isFinite_of_radius? {a : Argument Widget} (h : x ∈ radius? a) : x.isFinite = true := by
  obtain ⟨text, -, ht⟩ := Option.bind_eq_some_iff.mp h
  split at ht
  · cases ht
    rfl
  · split at ht
    · split at ht
      · exact isFinite_of_literal_bind ht
      · cases ht
    · cases ht

theorem isFinite_of_radius_bind {a? : Option (Argument Widget)} (h : x ∈ a? >>= radius?) :
    x.isFinite = true := by
  obtain ⟨a, -, ha⟩ := Option.bind_eq_some_iff.mp h
  exact isFinite_of_radius? ha

theorem isFinite_getD {x? : Option Binary64} (h : ∀ x ∈ x?, x.isFinite = true) :
    (x?.getD .zero).isFinite = true := by
  cases x? with
  | none => rfl
  | some x => exact h x rfl

end

/-- Corners keep to one of two tables. -/
theorem keeps_corners (text : String) : ∃ alike, KeepsTo (cornerTable alike) (corners text).style := by
  have huniform {radius : Binary64} (hf : radius.isFinite = true) :
      ∃ alike, KeepsTo (cornerTable alike) (Corners.uniform radius).style := by
    refine ⟨true, keeps_ofNumber (mem_numbers List.mem_cons_self) fun x hx => ?_⟩
    obtain rfl := Option.some.inj hx
    exact hf
  have heach {c : Construction} {table : List (String × String)}
      (h : ∀ entry ∈ table, ("border" ++ entry.2 ++ "Radius", Kind.number) ∈ cornerTable false) :
      ∃ alike, KeepsTo (cornerTable alike) (namedCorners c table).style := by
    refine ⟨false, keeps_ofNumbers ?_ ?_⟩
    · intro entry hm
      obtain ⟨corner, hc, rfl⟩ := List.mem_map.mp hm
      exact h corner hc
    · intro entry hm x hx
      obtain ⟨corner, -, rfl⟩ := List.mem_map.mp hm
      exact isFinite_of_radius_bind hx
  have hconstructed (c : Construction) :
      ∃ alike, KeepsTo (cornerTable alike) (constructedCorners c).style := by
    unfold constructedCorners
    split
    · exact huniform (isFinite_getD fun _ => isFinite_of_literal_bind)
    · exact huniform (isFinite_getD fun _ => isFinite_of_radius_bind)
    · exact heach (by decide)
    · exact heach (by decide)
    · exact heach (by decide)
    · exact huniform rfl
  unfold corners
  simp only
  split
  · exact huniform rfl
  · split
    · exact hconstructed _
    · exact huniform rfl

theorem keeps_border (text : String) : KeepsTo borderTable (border text) := by
  unfold border
  split
  · split
    · refine (keeps_ofNumber (by decide) fun _ => isFinite_of_literal_bind).setAll fun entry hm => ?_
      obtain ⟨value, -, rfl⟩ := List.mem_map.mp hm
      exact ⟨.text, show ("borderColor", Kind.text) ∈ borderTable by decide, trivial⟩
    · exact .empty
  · exact .empty

theorem keeps_constructedInsets (c : Construction) : KeepsTo (insetTable "padding") (constructedInsets c) := by
  have hsides {sides : List (String × String)}
      (h : ∀ entry ∈ sides, (entry.2, Kind.number) ∈ insetTable "padding") :
      KeepsTo (insetTable "padding") (namedSides c sides) := by
    refine keeps_ofNumbers ?_ ?_
    · intro entry hm
      obtain ⟨side, hs, rfl⟩ := List.mem_map.mp hm
      exact h side hs
    · intro entry hm x hx
      obtain ⟨side, -, rfl⟩ := List.mem_map.mp hm
      exact isFinite_of_literal_bind hx
  have hpositional {keys : List String} (h : ∀ key ∈ keys, (key, Kind.number) ∈ insetTable "padding") :
      KeepsTo (insetTable "padding") (positionalSides c keys) := by
    unfold positionalSides
    split
    · exact .empty
    · refine keeps_ofNumbers ?_ ?_
      · intro entry hm
        obtain ⟨given, hg, rfl⟩ := List.mem_map.mp hm
        exact h given.1 (List.of_mem_zip hg).1
      · intro entry hm x hx
        obtain ⟨given, -, rfl⟩ := List.mem_map.mp hm
        exact isFinite_of_literal? hx
  have hone : KeepsTo (insetTable "padding")
      (.ofNumbers [("padding", c.positional.head? >>= Argument.literal?)]) :=
    keeps_ofNumber (by decide) fun _ => isFinite_of_literal_bind
  unfold constructedInsets
  split
  · exact hone
  · exact hone
  · exact hsides (by decide)
  · exact hsides (by decide)
  · exact hsides (by decide)
  · exact hsides (by decide)
  · exact hpositional (by decide)
  · exact hpositional (by decide)
  · exact .empty

theorem keeps_padding (text : String) : KeepsTo (insetTable "padding") (padding text) := by
  unfold padding
  simp only
  split
  · refine keeps_ofNumber (by decide) fun x hx => ?_
    obtain rfl := Option.some.inj hx
    rfl
  · split
    · exact keeps_constructedInsets _
    · exact .empty

theorem keeps_margin (text : String) : KeepsTo (insetTable "margin") (margin text) := by
  have hrenamed : ∀ pair ∈ insetTable "padding", "padding".toList.isPrefixOf pair.1.toList = true ∧
      ("margin" ++ String.ofList (pair.1.toList.drop "padding".toList.length), pair.2) ∈
        insetTable "margin" := by decide
  intro entry hm
  obtain ⟨source, hs, rfl⟩ := List.mem_map.mp hm
  obtain ⟨kind, hk, ha⟩ := keeps_padding text source hs
  obtain ⟨hstarts, hmem⟩ := hrenamed _ hk
  simp only [hstarts, if_true]
  exact ⟨kind, hmem, ha⟩

end Style

namespace Widget

open Style

section

variable {table : Table}

theorem admits_dimension {W : Type} {a? : Option (Argument W)} {value : Value}
    (h : (a? >>= Argument.dimension?) = some value) : Kind.size.Admits value := by
  cases value with
  | text s => trivial
  | number x =>
    obtain ⟨a, -, ha⟩ := Option.bind_eq_some_iff.mp h
    cases a with
    | number text =>
      cases hx : numberIn? text with
      | none => simp [Argument.dimension?, hx] at ha
      | some y =>
        obtain rfl : y = x := by simpa [Argument.dimension?, hx] using ha
        exact isFinite_of_numberIn? hx
    | string | boolean | reference | construction | widget | widgets | raw =>
      simp [Argument.dimension?, Argument.text?] at ha

theorem keeps_dimensions (w : Widget) {keys : List String} (hk : ∀ key ∈ keys, (key, .size) ∈ table) :
    KeepsTo table (w.dimensions keys) := by
  apply Fields.Each.ofList
  intro entry hm
  obtain ⟨key, hmem, he⟩ := List.mem_filterMap.mp hm
  obtain ⟨value, hv, rfl⟩ := Option.map_eq_some_iff.mp he
  exact ⟨.size, hk key hmem, admits_dimension hv⟩

theorem keeps_styled {text? : Option String} {key : String} {value : String → String}
    (hk : (key, .text) ∈ table) : KeepsTo table (styled text? key value) := by
  apply keeps_ofTexts
  intro entry hm
  obtain ⟨text, -, rfl⟩ := List.mem_map.mp hm
  exact hk

theorem keeps_alignmentStyle (text? : Option String) (hd : ("justifyContent", .text) ∈ table)
    (ha : ("alignItems", .text) ∈ table) : KeepsTo table (alignmentStyle text?) := by
  unfold alignmentStyle
  split
  · apply keeps_ofTexts
    simp only [List.mem_cons, List.not_mem_nil, or_false]
    rintro entry (rfl | rfl)
    · exact hd
    · exact ha
  · exact .empty

end

theorem keeps_decorationStyle (c : Construction) : ∃ alike, KeepsTo (boxTable alike) (decorationStyle c) := by
  have hcorners : ∃ alike, KeepsTo (boxTable alike)
      (((c.argumentText? "borderRadius").map fun text => (corners text).style).getD ∅) := by
    cases c.argumentText? "borderRadius" with
    | none => exact ⟨true, .empty⟩
    | some text =>
      obtain ⟨alike, h⟩ := keeps_corners text
      exact ⟨alike, h.mono fun pair hm => by simp [boxTable, hm]⟩
  obtain ⟨alike, hcorners⟩ := hcorners
  refine ⟨alike, ((keeps_styled (by simp [boxTable, texts])).extend hcorners).extend (.getD fun text _ => ?_)⟩
  exact (keeps_border text).mono fun pair hm => by simp [boxTable, hm]

theorem keeps_containerStyle (w : Widget) : ∃ alike, KeepsTo (boxTable alike) w.containerStyle := by
  have hdecoration : ∃ alike, KeepsTo (boxTable alike)
      (((construction? (w.argumentText? "decoration") "BoxDecoration").map decorationStyle).getD ∅) := by
    cases construction? (w.argumentText? "decoration") "BoxDecoration" with
    | none => exact ⟨true, .empty⟩
    | some c => exact keeps_decorationStyle c
  obtain ⟨alike, hdecoration⟩ := hdecoration
  have hpadding (text : String) : KeepsTo (boxTable alike) (padding text) :=
    (keeps_padding text).mono fun pair hm => by simp [boxTable, hm]
  have hmargin (text : String) : KeepsTo (boxTable alike) (margin text) :=
    (keeps_margin text).mono fun pair hm => by simp [boxTable, hm]
  have hsizes : KeepsTo (boxTable alike) (w.dimensions ["width", "height"]) :=
    w.keeps_dimensions fun key hm => by simp [boxTable, mem_sizes hm]
  have hcolor : KeepsTo (boxTable alike) (styled (w.argumentText? "color") "backgroundColor" color) :=
    keeps_styled (by simp [boxTable, texts])
  have halignment : KeepsTo (boxTable alike) (alignmentStyle (w.argumentText? "alignment")) :=
    keeps_alignmentStyle _ (by simp [boxTable, texts]) (by simp [boxTable, texts])
  exact ⟨alike, ((((hsizes.extend hcolor).extend halignment).extend hdecoration).extend
    (.getD fun text _ => hpadding text)).extend (.getD fun text _ => hmargin text)⟩

theorem keeps_letterStyle (c : Construction) : KeepsTo letterTable (letterStyle c) := by
  have hsize {key : String} (hk : (key, .size) ∈ letterTable) :
      KeepsTo letterTable (.ofList ((c.argument? key >>= Argument.dimension?).toList.map (key, ·))) := by
    apply Fields.Each.ofList
    intro entry hm
    obtain ⟨value, hv, rfl⟩ := List.mem_map.mp hm
    exact ⟨.size, hk, admits_dimension (Option.mem_toList.mp hv)⟩
  exact (((((keeps_styled (by decide)).extend (hsize (by decide))).extend
    (keeps_styled (by decide))).extend (keeps_styled (by decide))).extend
      (keeps_styled (by decide))).extend (hsize (by decide))

theorem keeps_textStyle (w : Widget) : KeepsTo letterTable w.textStyle :=
  (Fields.Each.getD fun c _ => keeps_letterStyle c).extend (keeps_styled (by decide))

theorem keeps_flexStyle (w : Widget) (direction : String) : KeepsTo flexTable (w.flexStyle direction) := by
  have hdirection : KeepsTo flexTable (.ofTexts [("flexDirection", direction)]) :=
    keeps_ofTexts (List.forall_mem_singleton.mpr (mem_texts List.mem_cons_self))
  exact (hdirection.extend (keeps_styled (by decide))).extend (keeps_styled (by decide))

theorem keeps_positionedStyle (w : Widget) : KeepsTo positionedTable w.positionedStyle :=
  (keeps_ofTexts (by decide)).extend (w.keeps_dimensions (by decide))

theorem keeps_shareStyle (w : Widget) : KeepsTo (sizes ["flex"]) w.shareStyle := by
  apply Fields.Each.ofList
  refine List.forall_mem_singleton.mpr ⟨.size, mem_sizes List.mem_cons_self, ?_⟩
  cases hv : w.argument? "flex" >>= Argument.dimension? with
  | none => exact show (Binary64.ofInt 1).isFinite = true by decide +kernel
  | some value => exact admits_dimension hv

/-- The tables for a kind of widget, of which a style keeps to one. -/
def tables (name : String) : List Table :=
  match name with
  | "Container" => [boxTable true, boxTable false]
  | "Text" | "SelectableText" => [letterTable]
  | "Row" | "Column" => [flexTable]
  | "Stack" => [texts ["position"]]
  | "Positioned" => [positionedTable]
  | "Expanded" | "Flexible" => [sizes ["flex"]]
  | "SizedBox" => [sizes ["width", "height"]]
  | "Padding" => [insetTable "padding"]
  | "Center" => [texts ["justifyContent", "alignItems"]]
  | "Opacity" => [sizes ["opacity"]]
  | _ => [[]]

/-- Whatever the arguments of a widget are, its style keeps to a table of the widget's kind. -/
theorem keeps_style (w : Widget) : ∃ table ∈ tables w.name, KeepsTo table w.style := by
  obtain ⟨name, arguments, text?, content⟩ := w
  unfold style
  dsimp only
  split
  · obtain ⟨alike, h⟩ := keeps_containerStyle ⟨"Container", arguments, text?, content⟩
    exact ⟨boxTable alike, by cases alike <;> simp [tables], h⟩
  · exact ⟨_, List.mem_cons_self, keeps_textStyle _⟩
  · exact ⟨_, List.mem_cons_self, keeps_textStyle _⟩
  · exact ⟨_, List.mem_cons_self, keeps_flexStyle _ "row"⟩
  · exact ⟨_, List.mem_cons_self, keeps_flexStyle _ "column"⟩
  · exact ⟨_, List.mem_cons_self, keeps_ofTexts (by decide)⟩
  · exact ⟨_, List.mem_cons_self, keeps_positionedStyle _⟩
  · exact ⟨_, List.mem_cons_self, keeps_shareStyle _⟩
  · exact ⟨_, List.mem_cons_self, keeps_shareStyle _⟩
  · exact ⟨_, List.mem_cons_self, keeps_dimensions _ (by decide)⟩
  · exact ⟨_, List.mem_cons_self, .getD fun text _ => keeps_padding text⟩
  · exact ⟨_, List.mem_cons_self, keeps_ofTexts (by decide)⟩
  · exact ⟨_, List.mem_cons_self, keeps_dimensions _ (by decide)⟩
  · unfold tables
    split <;> exact ⟨_, List.mem_cons_self, .empty⟩

theorem isAttribute_of_mem_tables (name : String) :
    ∀ table ∈ tables name, ∀ pair ∈ table, IsAttribute pair.1 := by
  unfold tables
  split <;> decide

/-- The attributes of the style of a widget have plain names. -/
theorem named_style (w : Widget) : Named w.style := by
  intro entry hm
  obtain ⟨table, ht, hkeeps⟩ := keeps_style w
  obtain ⟨kind, hk, -⟩ := hkeeps entry hm
  exact isAttribute_of_mem_tables w.name table ht _ hk

end Widget

end WidgetJsx
