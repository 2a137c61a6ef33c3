import WidgetJsx.Proofs.Display
import WidgetJsx.Proofs.Quoted
import WidgetJsx.Proofs.RoundTrip

/-! Calls with nothing in front of their name and nothing behind their brackets. A quoted text that is
an argument of such a call comes out of a conversion as it went in, also where the call is itself an
argument, kept as text and read a second time. -/

namespace WidgetJsx

open Expression Text

section

variable {name : String} {body : List Char} {source : String}

theorem readCall_plain (hn : IsName name.toList) (hk : name ∉ keywords)
    (hc : Crosses ['('] body [')']) :
    ∃ rest, readCall (.ofList (name.toList ++ '(' :: (body ++ [')']))) =
      .ok (⟨name, ⟨'(' :: name.toList.reverse, body⟩⟩, rest) ∧ expectEnd rest = .ok () := by
  have hwords : ∀ word ∈ keywords, [name.toList].head? ≠ some word.toList := by
    intro word hw he
    obtain rfl := String.toList_inj.mp (Option.some.inj he)
    exact hk hw
  have hkeyword : Keyword (name.toList ++ ([] ++ '(' :: (body ++ [')']))) [] := .none
  have hread := readCall_written (pathOf_singleton hn) hwords .nil hkeyword .nil (hc.closing? rfl '\n')
    (.closed .nil)
  simpa [String.ofList_toList] using hread

theorem Widget.Whole.read_plain {w : Widget} (hw : w.Whole) (hb : Layout (.body w) body)
    (hs : source.toList = w.name.toList ++ '(' :: (body ++ [')'])) {limits : Limits}
    (hbytes : source.utf8ByteSize ≤ limits.bytes) (hdepth : w.depth ≤ limits.depth) :
    Widget.read limits source = .ok w := by
  have hc : Crosses ['('] body [')'] :=
    hb.crosses hw.sound (show isNameChar '(' = false by decide) (shut_cons (c := '(') rfl [])
  obtain ⟨rest, hr, he⟩ := readCall_plain hw.isName hw.not_keyword hc
  rw [← hs] at hr
  exact read_eq_ok_iff.mpr
    ⟨hbytes, _, rest, hr, isDotted_eq_false hw.isName, reads_readWidget hw.sound hdepth hb _, he⟩

theorem Entry.positional_named (entries : List (String × Argument Widget)) :
    Entry.positional (entries.map fun entry => ⟨some entry.1, entry.2⟩) = [] := by
  simp [Entry.positional]

theorem Construction.read_plain {entries : List (String × Argument Widget)}
    (hn : IsName name.toList) (hk : name ∉ keywords)
    (hsound : ∀ e ∈ entries.map Member.ofEntry, e.Sound) (hnodup : (entries.map Prod.fst).Nodup)
    (hdepth : ∀ entry ∈ entries, ∀ v ∈ entry.2.held, v.depth ≤ Limits.standard.depth)
    (hb : Layout (.sequence (entries.map .ofEntry)) body)
    (hs : source.toList = name.toList ++ '(' :: (body ++ [')']))
    (hbytes : source.utf8ByteSize ≤ Limits.standard.bytes) :
    Construction.read source = .ok ⟨name, [], ⟨entries⟩⟩ := by
  have hc : Crosses ['('] body [')'] := hb.crosses hsound trivial (shut_cons (c := '(') rfl [])
  obtain ⟨rest, hr, he⟩ := readCall_plain hn hk hc
  rw [← hs] at hr
  have hreads : ∀ entry ∈ entries, ∀ v ∈ entry.2.held,
      Reads (readWidget Limits.standard.depth Limits.standard.depth) v := by
    intro entry hm v hv inner hi behind
    have hnested := (hsound _ (List.mem_map_of_mem hm)).2.2 v hv
    exact reads_readWidget hnested.sound (hdepth entry hm v hv) hi behind
  have hentries := readEntries_layout hsound hreads hb ('(' :: name.toList.reverse)
  refine read_eq_ok_iff.mpr ⟨hbytes, _, rest, _, hr, hentries, he, ?_⟩
  rw [Entry.positional_named, named_entries hnodup]

/-- A call that builds a value may stand among the arguments of another. -/
theorem writable_construction {es : List Member} (hn : IsName name.toList)
    (hu : Unreserved [name.toList]) (hw : Widget.isWidgetName name = false)
    (hsound : ∀ e ∈ es, e.Sound) (hb : Layout (.sequence es) body)
    (hs : source.toList = name.toList ++ '(' :: (body ++ [')'])) :
    Argument.Writable (.construction source) := by
  have hc : Crosses ['('] body [')'] := hb.crosses hsound trivial (shut_cons (c := '(') rfl [])
  refine ⟨[name.toList], name.toList, [], body, pathOf_singleton hn, hu, .nil, ?_, hs, hc.closing? rfl _⟩
  rwa [String.ofList_toList]

theorem layout_entry {key : String} {value : Argument Widget} {u : List Char}
    (h : Layout (.value value) u) :
    Layout (.member (.entry key value)) (key.toList ++ ':' :: ' ' :: u) :=
  @Layout.entry key value [] [' '] u .nil (.fill (by decide) .nil) h

theorem toList_plain {lead name key : String} (h : lead = name ++ "(" ++ key ++ ": ") (value : String) :
    (lead ++ value ++ ")").toList =
      name.toList ++ '(' :: (key.toList ++ ':' :: ' ' :: value.toList ++ [')']) := by
  simp [h]

theorem layout_sequence {e : Member} {gap u : List Char} (hg : Separators gap)
    (h : Layout (.member e) u) : Layout (.sequence [e]) (gap ++ u) := by
  have hl := @Layout.cons e [] gap u [] hg h (.last .nil)
  rwa [List.append_nil] at hl

end

/-- A widget with one argument and nothing inside can be written, if the argument can be and is not
taken for the content. -/
theorem Widget.whole_singleton {name key : String} {value : Argument Widget} {text? : Option String}
    (hn : IsName name.toList) (hw : name ∉ keywords)
    (ht : ∀ text, text? = some text → isTextName name = true) (hk : IsName key.toList)
    (hkey : key ∉ ["child", "children"]) (hv : value.Writable) (hh : value.held = []) :
    Widget.Whole ⟨name, ⟨[(key, value)]⟩, text?, .none⟩ ∧
      Widget.depth ⟨name, ⟨[(key, value)]⟩, text?, .none⟩ = 1 := by
  have hheld : Widget.held ⟨name, ⟨[(key, value)]⟩, text?, .none⟩ = [] := by
    simp [held, hh, Content.toList]
  have hwritable : Widget.Writable ⟨name, ⟨[(key, value)]⟩, text?, .none⟩ :=
    { nodup := by simp [Fields.keys]
      isName := by simpa [Fields.keys] using hk
      argument := by simpa using hv
      held := by simp [hheld]
      text := fun text he => ⟨ht text he, rfl⟩
      content := fun _ => by
        refine ⟨fun v hm => hkey ?_, fun vs hm => hkey ?_⟩
        · simp [← (Prod.mk.inj (List.mem_singleton.mp hm)).1]
        · simp [← (Prod.mk.inj (List.mem_singleton.mp hm)).1] }
  exact ⟨⟨hn, hw, sound_iff.mpr ⟨hwritable, by simp [hheld]⟩⟩, depth_eq_one hheld⟩

theorem Widget.read_bare {name : String} {limits : Limits} (hn : IsName name.toList)
    (hk : name ∉ keywords) (hbytes : (name ++ "()").utf8ByteSize ≤ limits.bytes)
    (hdepth : 1 ≤ limits.depth) :
    Widget.read limits (name ++ "()") = .ok ⟨name, ⟨[]⟩, none, .none⟩ := by
  have hheld : held ⟨name, ⟨[]⟩, none, .none⟩ = [] := rfl
  have hwhole : Whole ⟨name, ⟨[]⟩, none, .none⟩ := ⟨hn, hk, sound_bare (by simp)⟩
  have hbody : Layout (.body ⟨name, ⟨[]⟩, none, .none⟩) [] := .arguments rfl .none (.nil .nil)
  exact hwhole.read_plain hbody (by simp) hbytes (by rwa [depth_eq_one hheld])

theorem convert_of_read {source : String} {w : Widget} (h : Widget.read .standard source = .ok w) :
    convert source = (Element.ofWidget w).markup Element.standardUnit 0 := by
  rw [convert, Conversion.read_eq, h]
  rfl

theorem Element.ofWidget_leaf {w : Widget} (h : w.content = .none) : ofWidget w =
    ⟨Catalog.component w.name, w.style, if Widget.isTextName w.name then w.text? else none, []⟩ := by
  rw [ofWidget]
  simp [h, Content.toList]

theorem sound_string {key : String} (hk : IsName key.toList) (s : String) :
    ∀ e ∈ [(key, (.string s : Argument Widget))].map Member.ofEntry, e.Sound := by
  intro e he
  obtain rfl := List.mem_singleton.mp he
  exact ⟨hk, trivial, by simp [Argument.held]⟩

section

variable {s q : String} {d : Delimiter} (hq : d.LiteralOf s.toList q.toList)
include hq

theorem layout_literal (key : String) : Layout (.sequence ([(key, .string s)].map .ofEntry))
    (key.toList ++ ':' :: ' ' :: q.toList) :=
  @layout_sequence _ [] _ .nil (layout_entry (.string hq))

theorem read_box (h : ("Container(width: " ++ q ++ ")").utf8ByteSize ≤ Limits.standard.bytes) :
    Widget.read .standard ("Container(width: " ++ q ++ ")") =
      .ok ⟨"Container", ⟨[("width", .string s)]⟩, none, .none⟩ := by
  obtain ⟨hwhole, hdepth⟩ := @Widget.whole_singleton "Container" "width" (.string s) none (by decide)
    (by decide) (by simp) (by decide) (by decide) trivial rfl
  have hbody : Layout (.body ⟨"Container", ⟨[("width", .string s)]⟩, none, .none⟩)
      ("width".toList ++ ':' :: ' ' :: q.toList) :=
    .arguments rfl .none (layout_literal hq "width")
  have hs := @toList_plain "Container(width: " "Container" "width" (by decide) q
  exact hwhole.read_plain hbody hs h (by rw [hdepth]; decide)

theorem read_font (h : ("TextStyle(fontFamily: " ++ q ++ ")").utf8ByteSize ≤ Limits.standard.bytes) :
    Construction.read ("TextStyle(fontFamily: " ++ q ++ ")") =
      .ok ⟨"TextStyle", [], ⟨[("fontFamily", .string s)]⟩⟩ := by
  have hsound := @sound_string "fontFamily" (by decide) s
  have hs := @toList_plain "TextStyle(fontFamily: " "TextStyle" "fontFamily" (by decide) q
  exact @Construction.read_plain "TextStyle" _ _ _ (by decide) (by decide) hsound (by simp)
    (by simp [Argument.held]) (layout_literal hq "fontFamily") hs h

theorem writable_font : Argument.Writable (.construction ("TextStyle(fontFamily: " ++ q ++ ")")) := by
  have hsound := @sound_string "fontFamily" (by decide) s
  have hs := @toList_plain "TextStyle(fontFamily: " "TextStyle" "fontFamily" (by decide) q
  exact @writable_construction "TextStyle" _ _ _ (by decide) (by unfold Unreserved; decide)
    (by decide) hsound (layout_literal hq "fontFamily") hs

end

theorem read_line {font : String} (hf : Argument.Writable (.construction font))
    (h : ("Text('x', style: " ++ font ++ ")").utf8ByteSize ≤ Limits.standard.bytes) :
    Widget.read .standard ("Text('x', style: " ++ font ++ ")") =
      .ok ⟨"Text", ⟨[("style", .construction font)]⟩, some "x", .none⟩ := by
  obtain ⟨hwhole, hdepth⟩ := @Widget.whole_singleton "Text" "style" (.construction font) (some "x")
    (by decide) (by decide) (fun _ _ => by decide) (by decide) (by decide) hf rfl
  have hentry : Layout (.sequence [.entry "style" (.construction font)])
      ([' '] ++ ("style".toList ++ ':' :: ' ' :: font.toList)) :=
    layout_sequence (.fill (by decide) .nil) (layout_entry (.construction .none))
  have hx : Style.quotation.LiteralOf "x".toList ['\'', 'x', '\''] :=
    ⟨by decide, ['x'], by decide, .plain (by decide) (by decide) .nil⟩
  have hbody : Layout (.body ⟨"Text", ⟨[("style", .construction font)]⟩, some "x", .none⟩)
      (['\'', 'x', '\''] ++ ',' :: ([' '] ++ ("style".toList ++ ':' :: ' ' :: font.toList))) :=
    @Layout.text _ "x" _ [] _ _ rfl .nil hx (@Layout.more _ [] _ .nil hentry)
  have hs : ("Text('x', style: " ++ font ++ ")").toList = "Text".toList ++ '(' :: (['\'', 'x', '\''] ++
      ',' :: ([' '] ++ ("style".toList ++ ':' :: ' ' :: font.toList)) ++ [')']) := by
    have hlead : "Text('x', style: " = "Text" ++ "('x', " ++ "style" ++ ": " := by decide
    -- the words are made variables, or else they would be taken apart into characters
    generalize "Text" = name, "style" = key at hlead ⊢
    rw [hlead]
    simp
  exact hwhole.read_plain hbody hs h (by rw [hdepth]; decide)

section

variable (s : String)

theorem style_box : Widget.style ⟨"Container", ⟨[("width", .string s)]⟩, none, .none⟩ =
    ⟨[("width", .text s)]⟩ := rfl

theorem style_line {font : String}
    (h : Construction.read font = .ok ⟨"TextStyle", [], ⟨[("fontFamily", .string s)]⟩⟩) :
    Widget.style ⟨"Text", ⟨[("style", .construction font)]⟩, some "x", .none⟩ =
      ⟨[("fontFamily", .text s)]⟩ := by
  have hc : Widget.construction? (some font) "TextStyle" =
      some ⟨"TextStyle", [], ⟨[("fontFamily", .string s)]⟩⟩ := by
    simp [Widget.construction?, h]
  change (((Widget.construction? (some font) "TextStyle").map Widget.letterStyle).getD ∅).extend _ = _
  rw [hc]
  rfl

theorem markup_leaf {w : Widget} {key text : String} {e : Element} (he : Element.ofWidget w = e)
    (hs : e.style = ⟨[(key, .text s)]⟩) (hc : e.children = []) (ht : e.shownText = text) :
    (Element.ofWidget w).markup Element.standardUnit 0 =
      "<" ++ e.component.name ++ " style=\x7b\x7b" ++ key ++ ": " ++ (Style.Value.text s).write ++
        "\x7d\x7d" ++
          if text = "" then " />\n" else ">" ++ text ++ "</" ++ e.component.name ++ ">\n" := by
  subst he ht
  have hstyle : Element.styleText (Element.ofWidget w).style =
      " style=\x7b\x7b" ++ (key ++ ": " ++ (Style.Value.text s).write) ++ "\x7d\x7d" := by
    rw [hs]
    simp [Element.styleText, Fields.isEmpty]
  have hindent : Element.indent Element.standardUnit 0 = "" := by decide
  by_cases ht : (Element.ofWidget w).shownText = ""
  · rw [Element.markup_empty _ _ hc ht, Element.opening, hstyle, if_pos ht, hindent]
    simp only [String.append_assoc, String.empty_append]
  · rw [Element.markup_text _ _ hc ht, Element.opening, Element.closing, hstyle, if_neg ht, hindent]
    simp only [String.append_assoc, String.empty_append]
    rfl

theorem convert_box {q : String}
    (h : Widget.read .standard ("Container(width: " ++ q ++ ")") =
      .ok ⟨"Container", ⟨[("width", .string s)]⟩, none, .none⟩) :
    convert ("Container(width: " ++ q ++ ")") =
      "<View style=\x7b\x7bwidth: " ++ (Style.Value.text s).write ++ "\x7d\x7d />\n" := by
  have he := Element.ofWidget_leaf (w := ⟨"Container", ⟨[("width", .string s)]⟩, none, .none⟩) rfl
  rw [convert_of_read h, markup_leaf s he (style_box s) rfl rfl]
  simp only [String.append_assoc]
  rfl

theorem convert_line {source font : String}
    (hf : Construction.read font = .ok ⟨"TextStyle", [], ⟨[("fontFamily", .string s)]⟩⟩)
    (h : Widget.read .standard source =
      .ok ⟨"Text", ⟨[("style", .construction font)]⟩, some "x", .none⟩) :
    convert source =
      "<Text style=\x7b\x7bfontFamily: " ++ (Style.Value.text s).write ++ "\x7d\x7d>x</Text>\n" := by
  have he := Element.ofWidget_leaf (w := ⟨"Text", ⟨[("style", .construction font)]⟩, some "x", .none⟩) rfl
  rw [convert_of_read h, markup_leaf s he (style_line s hf) rfl rfl]
  simp only [String.append_assoc]
  rfl

/-- A quoted text that is the width of a box, or the font in the style of a text, is read as that text,
and the markup has the same quoted text. -/
theorem convert_quoted :
    let quoted := (Style.Value.text s).write
    let box := "Container(width: " ++ quoted ++ ")"
    let font := "TextStyle(fontFamily: " ++ quoted ++ ")"
    let line := "Text('x', style: " ++ font ++ ")"
    (box.utf8ByteSize ≤ Limits.standard.bytes →
      Widget.read .standard box = .ok ⟨"Container", ⟨[("width", .string s)]⟩, none, .none⟩ ∧
      convert box = "<View style=\x7b\x7bwidth: " ++ quoted ++ "\x7d\x7d />\n") ∧
    (line.utf8ByteSize ≤ Limits.standard.bytes →
      Widget.read .standard line =
        .ok ⟨"Text", ⟨[("style", .construction font)]⟩, some "x", .none⟩ ∧
      Construction.read font = .ok ⟨"TextStyle", [], ⟨[("fontFamily", .string s)]⟩⟩ ∧
      convert line = "<Text style=\x7b\x7bfontFamily: " ++ quoted ++ "\x7d\x7d>x</Text>\n") := by
  intro quoted box font line
  have hq : Style.quotation.LiteralOf s.toList quoted.toList := Style.literalOf_quoted s
  refine ⟨fun hbox => ?_, fun hline => ?_⟩
  · have hr : Widget.read .standard box = _ := read_box hq hbox
    exact ⟨hr, convert_box s hr⟩
  · have hfont : font.utf8ByteSize ≤ Limits.standard.bytes := by
      have hsize : line.utf8ByteSize = "Text('x', style: ".utf8ByteSize + font.utf8ByteSize +
          ")".utf8ByteSize := by
        rw [← String.utf8ByteSize_append, ← String.utf8ByteSize_append]
      omega
    have hr : Widget.read .standard line = _ := read_line (writable_font hq) hline
    have hf : Construction.read font = _ := read_font hq hfont
    exact ⟨hr, hf, convert_line s hf hr⟩

theorem convert_quoted_bracket :
    let box := "Container(width: 'it\\'s) \\\\')"
    let line := "Text('x', style: TextStyle(fontFamily: 'it\\'s) \\\\'))"
    box.utf8ByteSize ≤ Limits.standard.bytes ∧ line.utf8ByteSize ≤ Limits.standard.bytes ∧
      convert box = "<View style=\x7b\x7bwidth: 'it\\'s) \\\\'\x7d\x7d />\n" ∧
      convert line = "<Text style=\x7b\x7bfontFamily: 'it\\'s) \\\\'\x7d\x7d>x</Text>\n" := by
  have hq : (Style.Value.text "it's) \\").write = "'it\\'s) \\\\'" := by decide
  obtain ⟨hbox, hline⟩ := convert_quoted "it's) \\"
  simp only [hq] at hbox hline
  refine ⟨by decide, by decide, ?_, ?_⟩
  · exact (hbox (by decide)).2
  · exact (hline (by decide)).2.2

end

end WidgetJsx
