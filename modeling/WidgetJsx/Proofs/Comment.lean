import Mathlib
import WidgetJsx.Proofs.Display
import WidgetJsx.Proofs.Outside
import WidgetJsx.Proofs.RespacedStyle

/-! Comments count as white space. A source that is converted may have a space in place of a comment, and is
converted to the same but for texts that are kept as they are written. -/

namespace WidgetJsx

namespace Expression

open Text

/-- In front of a comment, the readers of types and paths agree with those of brackets, whether the text ahead of
`s` has the comment in it or not, as the text ahead of `s'` has not. -/
structure Consistent (s s' : Cursor) (front comment : List Char) : Prop where
  /-- An angle bracket of code is closed by one of code; or it is open, and the comment has no angle brackets; or
  in neither text do types stand there in front of a list. -/
  angles : ∀ i, Edge s i → (front.drop i).head? = some '<' →
    (∃ n, angleClosing? (front.drop i) = some n ∧ Edge s (i + (n + 1))) ∨
      (angleClosing? (front.drop i) = none ∧ ∀ c ∈ comment, isAngle c = false) ∨
        (typedList? (s.forward i) = none ∧ typedList? (s'.forward i) = none)
  /-- No `r` of code stands between a dot and a quote. -/
  no_raw : ∀ i q, Edge s i → isQuote q = true → ¬ ['.', 'r', q] <+: front.drop i

theorem getElem?_angleClosing?_go {depth n k : Nat} {cs : List Char}
    (h : angleClosing?.go depth n cs = some k) : ∃ m, k = n + m ∧ cs[m]? = some '>' := by
  induction cs generalizing depth n with
  | nil => cases h
  | cons c cs ih =>
    have hnext : ∀ {depth}, angleClosing?.go depth (n + 1) cs = some k →
        ∃ m, k = n + m ∧ (c :: cs)[m]? = some '>' := by
      intro depth h
      obtain ⟨m, rfl, hm⟩ := ih h
      exact ⟨m + 1, by omega, by rwa [List.getElem?_cons_succ]⟩
    rw [angleClosing?.go] at h
    split at h
    · exact hnext h
    split at h
    next hc =>
      split at h
      · cases h
        exact ⟨0, rfl, congrArg some hc⟩
      · exact hnext h
    · exact hnext h

section

variable {s s' : Cursor} {lead t gap gap' comment rest back : List Char} {i : Nat}

/-- A bracket that is open where a gap starts is not closed by code in it. -/
theorem angleClosing?_gap (ha : s.ahead = lead ++ (t ++ rest)) (hl : Edge s lead.length) (ht : Trivia t)
    (hr : ¬ Solid isBlank rest) (hi : i ≤ lead.length) {n : Nat} (hn : angleClosing? ((lead ++ t).drop i) = some n)
    (he : Edge s (i + (n + 1))) : angleClosing? (lead.drop i) = some n := by
  rw [List.drop_append_of_le_length hi] at hn
  cases hc : angleClosing? (lead.drop i) with
  | some m => rw [← hn, show angleClosing? (lead.drop i ++ t) = some m from (angleClosing?_go_of_some hc).2 t]
  | none =>
    -- The bracket would be in a comment, or white space.
    rw [angleClosing?, angleClosing?_go_of_none hc, Nat.zero_add, List.length_drop] at hn
    obtain ⟨j, rfl, hj⟩ := getElem?_angleClosing?_go hn
    have hlt : j < t.length := (List.getElem?_eq_some_iff.mp hj).1
    have he' := hl.tail he (by omega)
    have hs : s.forward lead.length = ⟨(s.forward lead.length).behind, t ++ rest⟩ := by
      have hahead : (s.forward lead.length).ahead = t ++ rest := by
        rw [Cursor.forward_ahead, ha, List.drop_left]
      rw [← hahead]
    rw [hs, show i + (lead.length - i + j + 1) - lead.length = j + 1 by omega] at he'
    have hmem : '>' ∈ t.take (j + 1) := by
      refine List.mem_of_getElem? (i := j) ?_
      rw [List.getElem?_take_of_lt (by omega), hj]
    exact absurd (he'.isBlank ht hr (by omega) '>' hmem) (by decide)

/-- Where the comment and what is put in its place have no angle brackets, those in front are read alike. -/
theorem Consistent.angled (h : Consistent s s' (lead ++ t) comment) (ha : s.ahead = lead ++ (t ++ rest))
    (hl : Edge s lead.length) (ht : Trivia t) (hr : ¬ Solid isBlank rest)
    (hgap : comment.filter isAngle = [] → gap.filter isAngle = []) (hgap' : gap'.filter isAngle = [])
    (hi : Edge s i) (hn : (lead.drop i).head? = some '<') :
    Swap.Angled ⟨lead, t ++ gap, t ++ gap', back⟩ s s' i := by
  have hle := Swap.le_length_of_head?_drop hn
  have hdrop : (lead ++ t).drop i = lead.drop i ++ t := List.drop_append_of_le_length hle
  have hhead : ((lead ++ t).drop i).head? = some '<' := by
    rw [hdrop, List.head?_append, hn]
    rfl
  rcases h.angles i hi hhead with ⟨n, hc, he⟩ | ⟨hnone, hc⟩ | ⟨hs, hs'⟩
  · exact .closed (angleClosing?_gap ha hl ht hr hle hc he) he
  · have hempty := hgap (List.filter_eq_nil_iff.mpr fun c hm => by simp [hc c hm])
    refine .unclosed ?_ ?_
    · rw [← List.append_assoc, ← hdrop, angleClosing?, angleClosing?_go_of_none hnone,
        angleClosing?_go_eq_none_iff _ _ 0, hempty]
      rfl
    · rw [List.filter_append, List.filter_append, hempty, hgap']
  · exact .untyped hs hs'

end

section

variable {front comment back : List Char}

theorem Short.replace (h : Short (front ++ (comment ++ back))) (hc : comment ≠ []) :
    Short (front ++ ' ' :: back) := by
  have hone : (String.ofList (' ' :: back)).utf8ByteSize ≤ (String.ofList (comment ++ back)).utf8ByteSize := by
    have hpos : (String.ofList comment).utf8ByteSize ≠ 0 := fun hz =>
      hc (String.ofList_eq_empty_iff.mp (String.utf8ByteSize_eq_zero_iff.mp hz))
    have hspace : (String.ofList [' ']).utf8ByteSize = 1 := by decide
    rw [← List.singleton_append, String.ofList_append, String.ofList_append, String.utf8ByteSize_append,
      String.utf8ByteSize_append, hspace]
    omega
  rw [Short, String.ofList_append, String.utf8ByteSize_append] at h ⊢
  omega

/-- Behind white space and comments, a comment may become a space. -/
theorem refills_comment {t gap gap' : List Char} (ht : Trivia t) (hg : Trails (t ++ gap) back) (hne : gap ≠ [])
    (hb : ∀ c ∈ gap'.head?, isBlank c = true) (hne' : gap' ≠ []) :
    Refills (t ++ gap ++ back) (t ++ gap' ++ back) := by
  refine ⟨?_, fun c hc => ?_⟩
  · have := hg.gapLength_append filler_isBlank
    have hpos := List.length_pos_of_ne_nil hne
    rw [Solid, this, List.length_append]
    omega
  · cases ht with
    | nil =>
      obtain ⟨d, gap', rfl⟩ := List.exists_cons_of_ne_nil hne'
      exact .inl (hb c hc)
    | fill hd ht =>
      obtain rfl : _ = c := by simpa using hc
      exact .inl hd
    | line | block =>
      obtain rfl : _ = c := by simpa using hc
      exact .inr ⟨rfl, rfl⟩

section

variable {lead t blanks rest : List Char}

theorem Ending.getLast?_front (h : Ending (.ofList (lead ++ rest)) lead.length) :
    ∀ c ∈ lead.getLast?, isBlank c = false := by
  intro c hc
  obtain ⟨d, hd, hblank⟩ := h.last
  rw [Cursor.ofList, List.take_left] at hd
  obtain rfl : d = c := Option.some.inj (hd.symm.trans hc)
  exact hblank

/-- A comment behind white space and comments is part of a gap, and one with a space in its place makes no
difference to what is in front. -/
theorem IsComment.fair (hc : IsComment (blanks ++ rest) comment)
    (hend : lead.length = 0 ∨ Ending (.ofList (lead ++ (t ++ (comment ++ (blanks ++ rest))))) lead.length)
    (ht : Trivia t) (hblanks : ∀ c ∈ blanks, isBlank c = true) (htrails : Trails (comment ++ blanks) rest)
    (ha : Consistent (.ofList (lead ++ (t ++ (comment ++ (blanks ++ rest)))))
      (.ofList (lead ++ (t ++ ' ' :: (blanks ++ rest)))) (lead ++ t) comment) :
    (Swap.mk lead (t ++ (comment ++ blanks)) (t ++ ' ' :: blanks) rest).Fair (trimEnd comment)
      (.ofList (lead ++ (t ++ (comment ++ (blanks ++ rest)))))
      (.ofList (lead ++ (t ++ ' ' :: (blanks ++ rest)))) := by
  have hne : comment ≠ [] := by
    obtain ⟨v, rfl, -⟩ := hc.startsComment
    exact List.cons_ne_nil _ _
  have hedge : Edge (.ofList (lead ++ (t ++ (comment ++ (blanks ++ rest))))) lead.length := by
    rcases hend with hz | hend
    · rw [hz]
      exact .here _ _
    · exact hend.toEdge
  have hgap : ¬ Solid isBlank (comment ++ (blanks ++ rest)) := by
    obtain ⟨v, rfl, hstart⟩ := hc.startsComment
    rw [List.cons_append, solid_cons_iff]
    exact fun h => not_or.mpr (h.2 rfl) (hstart _).2
  constructor
  · exact hedge
  · have hrefills := refills_comment ht (htrails.append ht) (by simp [hne])
      (fun c hc => by cases hc; decide) (List.cons_ne_nil ' ' blanks)
    simp only [List.append_assoc, List.cons_append] at hrefills
    exact hedge.refill le_rfl hrefills
  · exact htrails.append ht
  · exact .inl (ht.append (.fill (by decide) (trivia_of_blanks hblanks)))
  · exact .inr ⟨by simp [hne], by simp⟩
  · exact (prefix_trimEnd comment).isInfix.trans
      ((List.prefix_append _ _).isInfix.trans (List.suffix_append _ _).isInfix)
  · exact getLast?_trimEnd comment
  · rcases hend with hz | hend
    · simp [List.eq_nil_of_length_eq_zero hz]
    · exact hend.getLast?_front
  · intro i hi hn
    have hangles := filter_isAngle_of_blanks hblanks
    exact ha.angled rfl hedge ht hgap
      (fun hc => by rw [List.filter_append, hc, hangles, List.append_nil])
      (by rw [List.filter_cons_of_neg (by decide), hangles]) hi hn
  · rintro i q hi hq ⟨v, hv⟩
    refine ha.no_raw i q hi hq ⟨v ++ t, ?_⟩
    rw [← List.append_assoc, hv, List.drop_append_of_le_length (Swap.le_length_of_prefix_drop ⟨v, hv⟩)]

end

theorem Outside.exists_joins (hs : Short (front ++ (comment ++ back)))
    (ho : Outside (.ofList (front ++ (comment ++ back))) front.length) (hc : IsComment back comment)
    (ha : Consistent (.ofList (front ++ (comment ++ back))) (.ofList (front ++ ' ' :: back)) front comment) :
    ∃ w : Swap, w.Joins (trimEnd comment) (.ofList (front ++ (comment ++ back)))
      (.ofList (front ++ ' ' :: back)) := by
  obtain ⟨v, hv, -⟩ := hc.startsComment
  have hne : comment ≠ [] := hv ▸ List.cons_ne_nil _ _
  have hhead : ((front ++ (comment ++ back)).drop front.length).head? = some '/' := by
    rw [List.drop_left, hv]
    rfl
  obtain ⟨k, hk, hend, ht⟩ := ho.endsInGap hhead
  obtain ⟨blanks, rest, rfl, hblanks, htrails⟩ := hc.trails
  obtain ⟨lead, t, rfl, rfl⟩ : ∃ lead t, front = lead ++ t ∧ lead.length = k :=
    ⟨front.take k, front.drop k, (List.take_append_drop k front).symm, List.length_take_of_le hk⟩
  replace ht : Trivia t := by
    have hlen : (lead ++ t).length - lead.length = t.length := by simp
    rwa [hlen, Cursor.ofList, List.append_assoc, List.drop_left, List.take_left] at ht
  refine ⟨⟨lead, t ++ (comment ++ blanks), t ++ ' ' :: blanks, rest⟩, ?_, ?_, fun _ => rfl, hs,
    hs.replace hne, .inr ?_⟩
  · simp only [Cursor.ofList, List.append_assoc]
  · simp only [Cursor.ofList, List.append_assoc, List.cons_append]
  · simp only [List.append_assoc lead] at hend ha ⊢
    exact hc.fair hend ht hblanks htrails ha

end

end Expression

open Expression Text

/-- A source that is converted may have a space in place of a comment that stands outside string literals. It is
converted with the same names and warnings, and to the same markup, unless the comment shows in a text that is
kept as it is written. -/
theorem Conversion.read_without_comment {source : String} {front comment back : List Char} {c : Conversion}
    (hsource : source.toList = front ++ (comment ++ back))
    (houtside : Outside (.ofList source.toList) front.length) (hcomment : IsComment back comment)
    (hconsistent : Consistent (.ofList source.toList) (.ofList (front ++ ' ' :: back)) front comment)
    (h : Conversion.read .standard source = .ok c) :
    ∃ c', Conversion.read .standard (String.ofList (front ++ ' ' :: back)) = .ok c' ∧
      c'.widget.name = c.widget.name ∧ c'.element.component = c.element.component ∧
      c'.warnings = c.warnings ∧ (¬ c.widget.Shows (trimEnd comment) → c'.output = c.output) := by
  rw [read_eq] at h
  cases hroot : Widget.read .standard source with
  | error fault =>
    rw [hroot] at h
    cases h
  | ok root =>
  obtain rfl : ofWidget root = c := by
    rw [hroot] at h
    exact Except.ok.inj h
  have hshort : Short (front ++ (comment ++ back)) := by
    rw [← hsource, Short, String.ofList_toList]
    exact (Widget.read_eq_ok_iff.mp hroot).1
  rw [hsource] at houtside hconsistent
  obtain ⟨w, hw⟩ := houtside.exists_joins hshort hcomment hconsistent
  have hjoins : w.Joins (trimEnd comment) (.ofList source.toList)
      (.ofList (String.ofList (front ++ ' ' :: back)).toList) := by
    rwa [hsource, String.toList_ofList]
  obtain ⟨root', hroot', hsame⟩ := hjoins.ties_widget hcomment.slash_mem root hroot
  refine ⟨ofWidget root', by rw [read_eq, hroot']; rfl, hsame.name_eq, ?_, ?_, fun hshows => ?_⟩
  · rw [ofWidget, ofWidget, Element.ofWidget_component, Element.ofWidget_component, hsame.name_eq]
  · have hnames : root'.unknownNames = root.unknownNames := by
      rw [Widget.unknownNames, Widget.unknownNames, hsame.names_eq]
    simp only [warnings, unknownNames, ofWidget, Widget.allUnknownNames, List.flatMap_cons, List.flatMap_nil, hnames]
  · rw [output, output, ofWidget, ofWidget, hsame.element_eq hshows]

theorem Expression.plain_code {u rest : List Char} (hu : u.all (fun c => !isQuote c && c != '/') = true)
    (hr : rest.head?.any isQuote = false) (behind : List Char) :
    Outside ⟨behind, u ++ rest⟩ u.length ∧ Edge ⟨behind, u ++ rest⟩ u.length := by
  induction u generalizing behind with
  | nil => exact ⟨.here _, .here _ _⟩
  | cons c u ih =>
    simp only [List.all_cons, Bool.and_eq_true, Bool.not_eq_true', bne_iff_ne] at hu
    have hnext : (u ++ rest).head?.any isQuote = false := by
      cases u with
      | nil => exact hr
      | cons d u =>
        have := List.all_eq_true.mp hu.2 d List.mem_cons_self
        simpa using (by simpa using this : isQuote d = false ∧ d ≠ '/').1
    have hi : Item.at (Cursor.mk behind (c :: (u ++ rest))).previous c (u ++ rest) = .code := by
      rw [Item.at_eq_code_iff, startsString_cons, hu.1.1, hnext, Bool.and_false, Bool.false_and, Bool.false_or]
      exact ⟨rfl, fun hs => hu.1.2 hs.1⟩
    obtain ⟨ho, he⟩ := ih hu.2 (c :: behind)
    rw [List.length_cons, Nat.add_comm]
    exact ⟨.code rfl hi ho, .code rfl hi rfl he⟩

theorem Widget.read_of_entries {source name : String} {arguments rest : Cursor} {entries : List Entry}
    (hb : source.utf8ByteSize ≤ Limits.standard.bytes)
    (hc : readCall (.ofList source.toList) = .ok (⟨name, arguments⟩, rest)) (hd : isDotted name = false)
    (ht : isTextName name = false) (he : readEntries (readWidget 100 99) arguments = .ok entries)
    (hr : expectEnd rest = .ok ()) : Widget.read .standard source =
      .ok ⟨name, (Content.split (Entry.named entries)).1, none, (Content.split (Entry.named entries)).2⟩ := by
  have hnone : readLeadingText? ⟨name, arguments⟩ = .ok none := by
    simp only [readLeadingText?, ht, Bool.false_and]
    rfl
  refine Widget.read_eq_ok_iff.mpr ⟨hb, _, rest, hc, hd, ?_, hr⟩
  change readBody (readWidget 100 99) ⟨name, arguments⟩ = _
  rw [readBody_split hnone, he]
  rfl

set_option maxRecDepth 4000 in
theorem Widget.read_column : Widget.read .standard "Column(children: <Widget>[/* none */])" =
    .ok ⟨"Column", ∅, none, .children []⟩ := by
  have hc : readCall (.ofList "Column(children: <Widget>[/* none */])".toList) = .ok
      (⟨"Column", ⟨"(nmuloC".toList, "children: <Widget>[/* none */]".toList⟩⟩,
        ⟨")]/* enon */[>tegdiW< :nerdlihc(nmuloC".toList, []⟩) := by cbv
  have he : readEntries (readWidget 100 99) ⟨"(nmuloC".toList, "children: <Widget>[/* none */]".toList⟩ =
      .ok [⟨some "children", .widgets []⟩] := by cbv
  exact read_of_entries (by decide) hc rfl rfl he rfl

set_option maxRecDepth 4000 in
theorem Conversion.read_without_comment_column : ∃ c,
    Conversion.read .standard "Column(children: <Widget>[ ])" = .ok c ∧ c.widget.name = "Column" ∧
      c.element.component = .view ∧ c.warnings = [] ∧
        c.output = "<View style=\x7b\x7bflexDirection: 'column'\x7d\x7d />\n" := by
  have hread := Conversion.read_eq .standard "Column(children: <Widget>[/* none */])"
  rw [Widget.read_column] at hread
  have hplain := @plain_code "Column(children: <Widget>[".toList "/* none */])".toList (by decide) (by decide) []
  have hangle := @plain_code "Column(children: <Widget>".toList "[/* none */])".toList (by decide) (by decide) []
  have hcomment : IsComment "])".toList "/* none */".toList :=
    show IsComment _ ('/' :: '*' :: (" none ".toList ++ ['*', '/'])) from .block (by decide)
  have hat : ∀ i < 27, ("Column(children: <Widget>[".toList.drop i).head? = some '<' → i = 17 := by decide
  have hconsistent : Consistent (.ofList "Column(children: <Widget>[/* none */])".toList)
      (.ofList ("Column(children: <Widget>[".toList ++ ' ' :: "])".toList)) "Column(children: <Widget>[".toList
        "/* none */".toList := by
    refine ⟨fun i _ hi => ?_, fun i q _ _ hp => ?_⟩
    · obtain rfl := hat i (Nat.lt_succ_of_le (Swap.le_length_of_head?_drop hi)) hi
      exact .inl ⟨7, by decide, hangle.2⟩
    · exact absurd (List.mem_of_mem_drop (hp.subset List.mem_cons_self)) (by decide)
  obtain ⟨c, hc, hname, hcomponent, hwarnings, houtput⟩ :=
    @Conversion.read_without_comment "Column(children: <Widget>[/* none */])" "Column(children: <Widget>[".toList
      "/* none */".toList "])".toList _ rfl hplain.1 hcomment hconsistent hread
  refine ⟨c, hc, hname, hcomponent.trans ?_, hwarnings.trans ?_, (houtput ?_).trans ?_⟩
  · cbv
  · cbv
  · rintro ⟨v, hv, hshows⟩
    rw [Widget.nested_eq] at hv
    obtain rfl := List.mem_singleton.mp hv
    rcases hshows with ⟨key, text, hm, hshows⟩ | ⟨color, hm, -⟩
    · have hstyle : (ofWidget ⟨"Column", ∅, none, .children []⟩).widget.style.entries =
          [("flexDirection", .text "column")] := by cbv
      rw [hstyle, List.mem_singleton] at hm
      cases hm
      exact absurd hshows (by decide)
    · cases hm
  · cbv

set_option maxRecDepth 4000 in
theorem Widget.read_commented : Widget.read .standard "Container(width: a /* c */ + b)" =
    .ok ⟨"Container", ⟨[("width", .raw "a /* c */ + b")]⟩, none, .none⟩ := by
  have hc : readCall (.ofList "Container(width: a /* c */ + b)".toList) = .ok
      (⟨"Container", ⟨"(reniatnoC".toList, "width: a /* c */ + b".toList⟩⟩,
        ⟨")b + /* c */ a :htdiw(reniatnoC".toList, []⟩) := by cbv
  have he : readEntries (readWidget 100 99) ⟨"(reniatnoC".toList, "width: a /* c */ + b".toList⟩ =
      .ok [⟨some "width", .raw "a /* c */ + b"⟩] := by cbv
  exact read_of_entries (by decide) hc rfl rfl he rfl

set_option maxRecDepth 4000 in
theorem Widget.read_uncommented : Widget.read .standard "Container(width: a   + b)" =
    .ok ⟨"Container", ⟨[("width", .raw "a   + b")]⟩, none, .none⟩ := by
  have hc : readCall (.ofList "Container(width: a   + b)".toList) = .ok
      (⟨"Container", ⟨"(reniatnoC".toList, "width: a   + b".toList⟩⟩,
        ⟨")b +   a :htdiw(reniatnoC".toList, []⟩) := by cbv
  have he : readEntries (readWidget 100 99) ⟨"(reniatnoC".toList, "width: a   + b".toList⟩ =
      .ok [⟨some "width", .raw "a   + b"⟩] := by cbv
  exact read_of_entries (by decide) hc rfl rfl he rfl

/-- A comment within an expression that is kept as it is written stays in the markup. -/
theorem Conversion.read_with_comment_kept : ∃ c c',
    Conversion.read .standard "Container(width: a /* c */ + b)" = .ok c ∧
      Outside (.ofList "Container(width: a /* c */ + b)".toList) "Container(width: a ".length ∧
        IsComment " + b)".toList "/* c */".toList ∧
          Conversion.read .standard "Container(width: a   + b)" = .ok c' ∧ c'.output ≠ c.output := by
  have h := Conversion.read_eq .standard "Container(width: a /* c */ + b)"
  have h' := Conversion.read_eq .standard "Container(width: a   + b)"
  rw [Widget.read_commented] at h
  rw [Widget.read_uncommented] at h'
  have hplain := @plain_code "Container(width: a ".toList "/* c */ + b)".toList (by decide) (by decide) []
  have hcomment : IsComment " + b)".toList "/* c */".toList :=
    show IsComment _ ('/' :: '*' :: (" c ".toList ++ ['*', '/'])) from .block (by decide)
  refine ⟨_, _, h, hplain.1, hcomment, h', ?_⟩
  have hout : (ofWidget ⟨"Container", ⟨[("width", .raw "a /* c */ + b")]⟩, none, .none⟩).output =
      "<View style=\x7b\x7bwidth: 'a /* c */ + b'\x7d\x7d />\n" := by cbv
  have hout' : (ofWidget ⟨"Container", ⟨[("width", .raw "a   + b")]⟩, none, .none⟩).output =
      "<View style=\x7b\x7bwidth: 'a   + b'\x7d\x7d />\n" := by cbv
  rw [hout, hout']
  decide

end WidgetJsx
