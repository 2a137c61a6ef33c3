import WidgetJsx.Proofs.Presentation
import WidgetJsx.Proofs.StyleText
import WidgetJsx.Proofs.Threshold

/-! How much white space stands in one place. Markup puts a tag, a quote or another mark around each text
that comes from the source, so that a run of white space lies within one of them or is written by the
program itself. No line of the markup is indented by more than that. -/

namespace WidgetJsx

open Text

namespace Text

variable {n : Nat} {c : Char} {u v cs : List Char}

theorem blankBytes_eq_zero (h : ∀ c ∈ cs, isBlank c = false) : blankBytes cs = 0 := by
  rw [blankBytes, List.filter_eq_nil_iff.mpr fun c hc => by simp [h c hc]]
  rfl

theorem blankBytes_space (h : ∀ c ∈ cs, isBlank c = false) : blankBytes (' ' :: cs) = 1 := by
  have hone : blankBytes [' '] = 1 := by decide
  rw [← List.singleton_append, blankBytes_append, hone, blankBytes_eq_zero h]

theorem blankBytes_le_of_sublist (h : u.Sublist v) : blankBytes u ≤ blankBytes v :=
  String.utf8Len_le_of_sublist (h.filter isBlank)

theorem blankBytes_le_utf8ByteSize (s : String) : blankBytes s.toList ≤ s.utf8ByteSize := by
  have hsize := String.utf8ByteSize_ofList s.toList
  rw [String.ofList_toList] at hsize
  rw [hsize]
  exact String.utf8Len_le_of_sublist List.filter_sublist

theorem infix_of_not_mem (h : cs <:+: u ++ c :: v) (hc : c ∉ cs) : cs <:+: u ∨ cs <:+: v := by
  obtain ⟨front, back, h⟩ := h
  -- where the part ends, in front of the character or behind it, and then where it begins
  rcases List.append_eq_append_iff.mp h with ⟨m, hu, -⟩ | ⟨m, hu, hv⟩
  · exact .inl ⟨front, m, hu.symm⟩
  · cases m with
    | nil => exact .inl ⟨front, [], by simpa using hu⟩
    | cons d m =>
      obtain ⟨rfl, rfl⟩ := List.cons.inj hv
      rcases List.append_eq_append_iff.mp hu with ⟨k, -, hk⟩ | ⟨k, -, hk⟩
      · exact absurd (by simp [hk]) hc
      · cases k with
        | nil =>
          obtain rfl : c :: m = cs := hk
          exact absurd List.mem_cons_self hc
        | cons d k =>
          obtain ⟨rfl, rfl⟩ := List.cons.inj hk
          exact .inr ⟨k, back, rfl⟩

/-- White space in one place amounts to no more than `n` bytes. -/
def ShortRuns (n : Nat) (cs : List Char) : Prop :=
  ∀ u, u <:+: cs → (∀ c ∈ u, isBlank c = true) → blankBytes u ≤ n

namespace ShortRuns

theorem of_infix (h : ShortRuns n v) (hi : u <:+: v) : ShortRuns n u :=
  fun w hw hb => h w (hw.trans hi) hb

theorem of_le (h : blankBytes cs ≤ n) : ShortRuns n cs :=
  fun _ hu _ => (blankBytes_le_of_sublist hu.sublist).trans h

theorem append_cons (hu : ShortRuns n u) (hc : isBlank c = false) (hv : ShortRuns n v) :
    ShortRuns n (u ++ c :: v) := by
  intro w hw hb
  have hm : c ∉ w := fun hm => by simp [hb c hm] at hc
  rcases infix_of_not_mem hw hm with hw | hw
  · exact hu w hw hb
  · exact hv w hw hb

theorem cons (hc : isBlank c = false) (hv : ShortRuns n v) : ShortRuns n (c :: v) :=
  append_cons (u := []) (of_le (Nat.zero_le n)) hc hv

theorem append_unbroken (hu : ∀ c ∈ u, isBlank c = false) (hv : ShortRuns n v) : ShortRuns n (u ++ v) := by
  induction u with
  | nil => exact hv
  | cons c u ih =>
    exact (ih fun d hd => hu d (List.mem_cons_of_mem c hd)).cons (hu c List.mem_cons_self)

end ShortRuns

theorem infix_of_mem_lines {line : List Char} (h : line ∈ lines cs) : line <:+: cs := by
  have hgo : ∀ before, line ∈ linesFrom [] before cs → line <:+: before.reverse ++ cs := by
    clear h
    induction cs with
    | nil =>
      intro before h
      obtain rfl := List.mem_singleton.mp h
      exact (List.prefix_append _ _).isInfix
    | cons c cs ih =>
      intro before h
      unfold linesFrom at h
      split at h
      · rw [linesFrom_eq, List.mem_append] at h
        rcases h with h | h
        · obtain rfl := List.mem_singleton.mp h
          exact (List.prefix_append _ _).isInfix
        · exact (ih [] h).trans ((List.suffix_cons c cs).trans (List.suffix_append _ _)).isInfix
      · simpa using ih (c :: before) h
  exact hgo [] h

theorem leadingBytes_le (h : ShortRuns n cs) {line : List Char} (hl : line ∈ lines cs) :
    Element.leadingBytes line ≤ n := by
  rw [Element.leadingBytes_eq]
  refine h _ ((List.takeWhile_prefix isBlank).isInfix.trans (infix_of_mem_lines hl)) fun c hc => ?_
  exact List.mem_takeWhile_imp hc

end Text

namespace Style

variable {n : Nat} {rest : List Char}

/-- A number, or a text with so much white space at most. -/
def Value.BlanksWithin (n : Nat) (value : Value) : Prop :=
  ∀ s, value = .text s → blankBytes s.toList ≤ n

theorem blankBytes_escaped (cs : List Char) : blankBytes (cs.flatMap escaped) = blankBytes cs := by
  have hchar (c : Char) : (escaped c).filter isBlank = [c].filter isBlank := by
    unfold escaped
    split
    · exact List.filter_cons_of_neg (by decide)
    · rfl
  have hfilter : (cs.flatMap escaped).filter isBlank = cs.filter isBlank := by
    induction cs with
    | nil => rfl
    | cons c cs ih =>
      rw [List.flatMap_cons, List.filter_append, hchar, ih, ← List.filter_append, List.singleton_append]
  rw [blankBytes, hfilter, blankBytes]

section

variable (hn : 1 ≤ n) (hr : ShortRuns n rest)

include hn hr

theorem shortRuns_value {value : Value} (h : value.BlanksWithin n) (he : EndsValue rest) :
    ShortRuns n (' ' :: (value.write.toList ++ rest)) := by
  cases value with
  | number x =>
    obtain ⟨c, rest, rfl, hc⟩ := he
    have hcut : isBlank c = false := by rcases hc with rfl | rfl <;> decide
    have hspace : blankBytes (' ' :: (numberText x).toList) ≤ n := by
      rw [blankBytes_space fun d hd => isBlank_numberText hd]
      exact hn
    exact (ShortRuns.of_le hspace).append_cons hcut (hr.of_infix (List.suffix_cons c rest).isInfix)
  | text s =>
    have hw : (Value.text s).write = quoted s := rfl
    have hspace : ShortRuns n [' '] := .of_le hn
    have htext : ShortRuns n (s.toList.flatMap escaped) := by
      refine .of_le ?_
      rw [blankBytes_escaped]
      exact h s rfl
    rw [hw, quoted_append]
    exact hspace.append_cons (by decide) (htext.append_cons (by decide) hr)

theorem shortRuns_entryText {entry : String × Value} (hk : IsAttribute entry.1)
    (hv : entry.2.BlanksWithin n) (he : EndsValue rest) :
    ShortRuns n (' ' :: (entryText entry ++ rest)) := by
  have hkey : blankBytes (' ' :: entry.1.toList) ≤ n := by
    rw [blankBytes_space fun c hc => isBlank_eq_false_of_isAlphanum (isAlphanum_of_mem hk c hc)]
    exact hn
  have := (ShortRuns.of_le hkey).append_cons (c := ':') (by decide) (shortRuns_value hn hr hv he)
  simpa [entryText] using this

theorem shortRuns_tailText {entries : List (String × Value)}
    (h : ∀ entry ∈ entries, IsAttribute entry.1 ∧ entry.2.BlanksWithin n) :
    ShortRuns n (tailText entries ++ rest) := by
  induction entries with
  | nil => exact (hr.cons (c := '\x7d') (by decide)).cons (by decide)
  | cons entry entries ih =>
    obtain ⟨hk, hv⟩ := h entry List.mem_cons_self
    have hrest := ih fun entry hm => h entry (List.mem_cons_of_mem _ hm)
    have hentry := shortRuns_entryText hn hrest hk hv (endsValue_tailText entries rest)
    simpa [tailText] using hentry.cons (c := ',') (by decide)

end

end Style

namespace Element

variable {n : Nat} {e : Element}

/-- The text and the style of an element, each text in it with so much white space at most. -/
structure BlanksWithin (n : Nat) (e : Element) : Prop where
  text : ∀ text ∈ e.text?, blankBytes text.toList ≤ n
  style : ∀ entry ∈ e.style.entries, entry.2.BlanksWithin n

section

variable {rest : List Char} (hn : 1 ≤ n) (hr : ShortRuns n rest)

include hn hr

theorem shortRuns_styleText {style : Style} (hk : style.Named)
    (hv : ∀ entry ∈ style.entries, entry.2.BlanksWithin n) :
    ShortRuns n ((styleText style).toList ++ rest) := by
  obtain ⟨entries⟩ := style
  cases entries with
  | nil => exact hr
  | cons entry entries =>
    have htail := Style.shortRuns_tailText hn hr fun entry hm =>
      ⟨hk entry (List.mem_cons_of_mem _ hm), hv entry (List.mem_cons_of_mem _ hm)⟩
    have hentry := Style.shortRuns_entryText hn htail (hk entry List.mem_cons_self)
      (hv entry List.mem_cons_self) (Style.endsValue_tailText entries rest)
    have hfront : ShortRuns n " style=\x7b".toList := .of_le hn
    have hall := hfront.append_cons (c := '\x7b') (by decide)
      (hentry.of_infix (List.suffix_cons ' ' _).isInfix)
    rw [toList_styleText]
    simpa using hall

theorem shortRuns_opening (h : e.BlanksWithin n) (hk : e.style.Named) :
    ShortRuns n ((opening e.component e.style).toList ++ rest) := by
  have hname : ∀ c ∈ e.component.name.toList, isBlank c = false := fun c hc =>
    isBlank_eq_false_of_isAlphanum (e.component.isAlphanum_of_mem_name c hc)
  have hall := ((shortRuns_styleText hn hr hk h.style).append_unbroken hname).cons (c := '<') (by decide)
  simpa [opening] using hall

omit hn in
/-- The text in front of the closing tag, if there is one, ends there. -/
theorem shortRuns_closing {text : List Char} (h : blankBytes text ≤ n) (component : Component) :
    ShortRuns n (text ++ ((closing component).toList ++ rest)) := by
  have hname : ∀ c ∈ component.name.toList, isBlank c = false := fun c hc =>
    isBlank_eq_false_of_isAlphanum (component.isAlphanum_of_mem_name c hc)
  have htag := ((hr.cons (c := '>') (by decide)).append_unbroken hname).cons (c := '/') (by decide)
  simpa [closing] using (ShortRuns.of_le h).append_cons (c := '<') (by decide) htag

theorem LineOf.shortRuns {text : String} (hl : e.LineOf text) (h : e.BlanksWithin n) (hk : e.style.Named) :
    ShortRuns n (text.toList ++ rest) := by
  cases hl with
  | empty =>
    have hspace : ShortRuns n [' '] := .of_le hn
    have hend : ShortRuns n (" />".toList ++ rest) :=
      hspace.append_cons (by decide) (hr.cons (c := '>') (by decide))
    simpa using shortRuns_opening hn hend h hk
  | text =>
    have htext : blankBytes e.shownText.toList ≤ n := by
      rcases e.shownText_cases with he | he
      · rw [he]
        exact Nat.zero_le n
      · exact h.text _ he
    have hend := (shortRuns_closing hr htext e.component).cons (c := '>') (by decide)
    simpa using shortRuns_opening hn hend h hk
  | start => simpa using shortRuns_opening hn (hr.cons (c := '>') (by decide)) h hk
  | stop =>
    have hnone : blankBytes [] ≤ n := Nat.zero_le n
    exact shortRuns_closing hr hnone e.component

end

theorem LineOf.exists_tag {text : String} (hl : e.LineOf text) : ∃ inner, text.toList = '<' :: inner := by
  cases hl <;> exact ⟨_, by simp only [opening, closing, String.toList_append]; rfl⟩

theorem shortRuns_written {ls : List Line} (hn : 1 ≤ n)
    (hlevel : ∀ line ∈ ls, line.level * standardUnit < n)
    (hl : ∀ line ∈ ls, ∃ e : Element, e.BlanksWithin n ∧ e.style.Named ∧ e.LineOf line.text) :
    ShortRuns n ('\n' :: (String.join (ls.map (Line.write standardUnit))).toList) := by
  induction ls with
  | nil => exact .of_le hn
  | cons line ls ih =>
    obtain ⟨e, hb, hk, htext⟩ := hl line List.mem_cons_self
    obtain ⟨inner, htag⟩ := htext.exists_tag
    have hrest := ih (fun line hm => hlevel line (List.mem_cons_of_mem _ hm))
      fun line hm => hl line (List.mem_cons_of_mem _ hm)
    have hline := htext.shortRuns hn hrest hb hk
    rw [htag] at hline
    -- the line break and the blanks that the line starts with are one run
    have hblanks : blankBytes ('\n' :: List.replicate (line.level * standardUnit) ' ') ≤ n := by
      have hone : blankBytes ['\n'] = 1 := by decide
      have hlevel := hlevel line List.mem_cons_self
      rw [← List.singleton_append, blankBytes_append, hone, blankBytes_spaces]
      omega
    have hall := (ShortRuns.of_le hblanks).append_cons (c := '<') (by decide)
      (hline.of_infix (List.suffix_cons '<' _).isInfix)
    rw [List.map_cons, String.join_cons, String.toList_append, Line.toList_write, Line.indented, htag]
    simpa using hall

theorem level_lt_of_mem_lines {w : Widget} {level : Nat} {line : Line}
    (h : line ∈ (ofWidget w).lines level) : line.level < level + w.depth := by
  induction w using Widget.nested.induct generalizing level with
  | case1 w ih =>
    have hw := w.depth_pos
    have hself {text : String} (h : line = ⟨level, text⟩) : line.level < level + w.depth := by
      rw [h]
      exact Nat.lt_add_of_pos_right hw
    by_cases hc : (ofWidget w).children = []
    · by_cases ht : (ofWidget w).shownText = ""
      · rw [lines_empty level hc ht] at h
        exact hself (List.mem_singleton.mp h)
      · rw [lines_text level hc ht] at h
        exact hself (List.mem_singleton.mp h)
    · rw [lines_children level hc, ofWidget_children] at h
      simp only [List.mem_append, List.mem_cons, List.mem_flatMap, List.mem_map, List.not_mem_nil,
        or_false] at h
      rcases h with (h | ⟨e, ⟨child, hm, rfl⟩, h⟩) | h
      · exact hself h
      · obtain ⟨levels, hd⟩ := Nat.exists_eq_succ_of_ne_zero (Nat.ne_of_gt hw)
        have hchild := Widget.depth_le_succ_iff.mp (Nat.le_of_eq hd) child (List.mem_append_right _ hm)
        have := ih child hm h
        omega
      · exact hself h

/-- All the white space in one place in the markup of a source, with the line break in front. The limits on
the source are limits on that, too. -/
theorem shortRuns_markup {limits : Limits} {source : String} {w : Widget} {n : Nat}
    (h : Widget.read limits source = .ok w) (hbytes : limits.bytes ≤ n)
    (hdepth : limits.depth * standardUnit ≤ n) :
    ShortRuns n ('\n' :: ((ofWidget w).markup standardUnit 0).toList) := by
  have hd := Widget.depth_le_of_read h
  have hpos := w.depth_pos
  unfold standardUnit at hdepth
  have hblanks {text : String} (ht : text.toList.Sublist source.toList) : blankBytes text.toList ≤ n := by
    obtain ⟨hb, -⟩ := Widget.read_eq_ok_iff.mp h
    exact (blankBytes_le_of_sublist ht).trans ((blankBytes_le_utf8ByteSize source).trans (hb.trans hbytes))
  refine shortRuns_written (by omega) (fun line hm => ?_) fun line hm => ?_
  · have := level_lt_of_mem_lines hm
    unfold standardUnit
    omega
  · obtain ⟨e, he, hl⟩ := exists_of_mem_lines 0 hm
    have hnamed := named_of_mem_nodes e he
    rw [nodes_ofWidget] at he
    obtain ⟨v, hv, rfl⟩ := List.mem_map.mp he
    have hexcerpts := Widget.read_excerpts h (Widget.within_of_mem_nested hv)
    refine ⟨ofWidget v, ⟨fun text ht => ?_, fun entry hm s hs => ?_⟩, hnamed, hl⟩
    · rw [ofWidget_text?] at ht
      split at ht
      · exact hblanks (hexcerpts.text text ht)
      · cases ht
    · have hstyle : (ofWidget v).style = v.style := by rw [ofWidget]
      rw [hstyle] at hm
      rcases Widget.draws_style hexcerpts.arguments entry hm s hs with hs | hs
      · exact hblanks hs
      · rw [blankBytes_eq_zero (Style.unbroken_iff.mp hs)]
        exact Nat.zero_le n

end Element

namespace Service

open Element

/-- No line of a document is indented by more bytes than a source may have. -/
theorem leadingBytes_le {code : String} {c : Conversion} (h : Conversion.read .standard code = .ok c)
    (options : Options) {line : List Char} (hl : line ∈ lines (document options c).toList) :
    leadingBytes line ≤ Limits.standard.bytes := by
  rw [Conversion.read_eq] at h
  cases hr : Widget.read .standard code with
  | error fault =>
    rw [hr] at h
    cases h
  | ok w =>
    rw [hr] at h
    obtain rfl := Except.ok.inj h
    have hmarkup := shortRuns_markup hr (Nat.le_refl Limits.standard.bytes) (by decide)
    refine Text.leadingBytes_le ?_ hl
    unfold document
    cases options.includeImports with
    | false =>
      simp only [Bool.false_eq_true, if_false, String.empty_append]
      exact hmarkup.of_infix (List.suffix_cons '\n' _).isInfix
    | true =>
      -- the last line break of the imports is where the markup begins
      have hfront : importLines.toList = importLines.toList.dropLast.dropLast ++ [';', '\n'] := by decide
      have hblanks : blankBytes importLines.toList.dropLast.dropLast ≤ Limits.standard.bytes := by decide
      have hall := (ShortRuns.of_le hblanks).append_cons (c := ';') (by decide) hmarkup
      rw [if_pos rfl, String.toList_append, hfront, List.append_assoc]
      exact hall

theorem indentation_le {code : String} {c : Conversion} (h : Conversion.read .standard code = .ok c)
    (options : Options) {line : List Char} (hl : line ∈ lines (document options c).toList) :
    indentation options.unit line ≤ 2 ^ 19 * options.unit := by
  have hbytes : leadingBytes line ≤ 2 ^ 20 := leadingBytes_le h options hl
  refine Nat.mul_le_mul_right _ ?_
  unfold standardUnit
  omega

theorem canReindent_document {code : String} {c : Conversion} (h : Conversion.read .standard code = .ok c)
    (options : Options) (hunit : options.unit ≤ Options.unitBound) :
    canReindent options.unit (document options c) = true := by
  unfold canReindent
  rw [Bool.or_eq_true, List.all_eq_true]
  refine .inr fun line hl => decide_eq_true ?_
  have := indentation_le h options hl
  unfold Options.unitBound at hunit
  unfold largestText
  omega

end Service

end WidgetJsx
