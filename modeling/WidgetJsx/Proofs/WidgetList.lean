import WidgetJsx.Proofs.Descent
import WidgetJsx.Proofs.RoundTrip
import WidgetJsx.Proofs.Sealed

/-! Lists of widgets with other things among them. An item that does not start as a widget's call does is
passed to the comma behind it, and nothing in it is taken for a widget. -/

namespace WidgetJsx

open Expression Text

/-- The text starts as a widget's call does: with the name, maybe behind a keyword, and an opening
bracket. -/
inductive Calls : List Char → Prop
  | intro {lead keyword name gap more : List Char} : Trivia lead →
      Keyword name keyword → IsName name → Widget.isWidgetName (String.ofList name) = true →
      Trivia gap →
      Calls (lead ++ (keyword ++ (name ++ (gap ++ '(' :: more))))

/-- What stands between two commas of a list, and the widget that it is, if it is one. -/
inductive ItemText : Option Widget → List Char → Prop
  | widget {w : Widget} {lead u trail : List Char} : Trivia lead → w.Nested → Layout (.call w) u →
      Trivia trail → ItemText (some w) (lead ++ (u ++ trail))
  | other {u : List Char} : Sealed false ',' u → ¬ Calls u → ItemText none u

/-- What stands between the brackets of a list: items with commas between them. -/
inductive ItemsText : List (Option Widget) → List Char → Prop
  | last {item : Option Widget} {u : List Char} : ItemText item u → ItemsText [item] u
  | more {item : Option Widget} {items : List (Option Widget)} {u v : List Char} : ItemText item u →
      ItemsText items v → ItemsText (item :: items) (u ++ ',' :: v)

section

variable {u v rest behind : List Char} {previous : Char}

theorem Calls.trivia {lead : List Char} (hl : Trivia lead) (h : Calls u) : Calls (lead ++ u) := by
  obtain ⟨hl', hk, hn, hw, hg⟩ := h
  rw [← List.append_assoc]
  exact .intro (hl.append hl') hk hn hw hg

/-- A comma or the end. -/
def CommaNext (rest : List Char) : Prop := rest = [] ∨ rest.head? = some ','

theorem CommaNext.divided (h : CommaNext rest) : Divided rest := by
  rcases h with rfl | h
  · simp [Divided]
  · intro c hc
    rw [h] at hc
    exact .inl (Option.some.inj hc).symm

theorem CommaNext.rawLength_eq (hr : CommaNext rest)
    (h : Scans rawStep 0 ⟨behind, u ++ rest⟩ u.length 0) :
    rawLength (behind.headD '\n') (u ++ rest) = u.length := by
  have hl := rawLength_of_scans h
  rw [Cursor.forward_append] at hl
  have hz : rawLength (Cursor.mk (u.reverse ++ behind) rest).previous rest = 0 := by
    rcases hr with rfl | hr
    · exact Nat.le_zero.mp (rawLength_le ⟨u.reverse ++ behind, []⟩)
    · exact rawLength_comma (s := ⟨u.reverse ++ behind, rest⟩) hr
  rw [hz] at hl
  exact hl

theorem rawLength_sealed (h : Sealed false previous u) (hb : Preceded previous behind)
    (hr : CommaNext rest) : rawLength (behind.headD '\n') (u ++ rest) = u.length :=
  hr.rawLength_eq (h.scans_raw hb hr.divided)

theorem head_of_opening {s : Cursor} (ho : (opening (unworded s)).next? = some '(')
    (hw : Widget.isWidgetName ((unworded s).text (pathLength (unworded s).ahead)) = true) :
    ∃ k name gap more, s.ahead = k ++ (name ++ (gap ++ '(' :: more)) ∧
      Keyword name k ∧ IsName name ∧ Widget.isWidgetName (String.ofList name) = true ∧ Trivia gap ∧
        Scans rawStep 0 s (k ++ (name ++ gap)).length 0 := by
  obtain ⟨behind, ahead⟩ := s
  obtain ⟨k, next, rfl, hk, hkey⟩ := keyword_prefix ahead
  have hu : unworded ⟨behind, k ++ next⟩ = ⟨k.reverse ++ behind, next⟩ := by
    simp only [unworded, hk, Cursor.forward_append]
  rw [hu] at ho hw
  have hpos := pathLength_pos_of_isWidgetName hw
  obtain ⟨names, path, gap, more, ha, hpath, hg, hl, ht, -⟩ := opening_split hpos ho
  have hname : Widget.isWidgetName (String.ofList path) = true := by
    rw [Cursor.text, hl, ha, List.take_left] at hw
    exact hw
  have hundotted : '.' ∉ path := by
    simp only [Widget.isWidgetName, Bool.and_eq_true, Bool.not_eq_true'] at hname
    simpa [Widget.isDotted] using hname.1.2
  have hkeyword := (indifferent_rawStep 0).keyword ⟨behind, k ++ next⟩
  have hopening := (indifferent_rawStep 0).opening ho (by decide)
  rw [hk] at hkeyword
  rw [ht, hl] at hopening
  obtain rfl : next = path ++ (gap ++ '(' :: more) := ha
  have hn := hpath.isName_of_undotted hundotted
  have hk : Keyword path k := by
    obtain ⟨c, cs, rfl⟩ := List.exists_cons_of_ne_nil hn.ne_nil
    exact (hkey (List.cons_ne_nil _ _)).congr rfl
  refine ⟨k, path, gap, more, rfl, hk, hn, hname, hg, ?_⟩
  rw [List.length_append, List.length_append]
  refine hkeyword.trans ?_
  rwa [Cursor.forward_append]

/-- Where a reader of items finds the head of a call, the text up to the next comma starts with it. -/
theorem calls_of_opening (hraw : rawLength (behind.headD '\n') (u ++ rest) = u.length)
    (hr : CommaNext rest) (ho : (opening (unworded ⟨behind, u ++ rest⟩)).next? = some '(')
    (hw : Widget.isWidgetName ((unworded ⟨behind, u ++ rest⟩).text
      (pathLength (unworded ⟨behind, u ++ rest⟩).ahead)) = true) : Calls u := by
  obtain ⟨k, name, gap, more, ha, hk, hn, hname, hg, hscan⟩ := head_of_opening ho hw
  have ha : u ++ rest = k ++ (name ++ gap) ++ '(' :: more := by simpa using ha
  have hle : (k ++ (name ++ gap)).length ≤ u.length := by
    have hl := rawLength_of_scans hscan
    rw [← hraw]
    exact hl ▸ Nat.le_add_right _ _
  obtain ⟨v, rfl⟩ : k ++ (name ++ gap) <+: u :=
    List.prefix_of_prefix_length_le ⟨'(' :: more, ha.symm⟩ (List.prefix_append u rest) hle
  have hv : v ++ rest = '(' :: more := by simpa using ha
  cases v with
  | nil =>
    -- The bracket would be the comma behind the text, or would stand behind the end.
    rcases hr with rfl | hr
    · simp at hv
    · rw [List.nil_append] at hv
      simp [hv] at hr
  | cons c v =>
    obtain ⟨rfl, rfl⟩ := List.cons.inj hv
    have hcalls : Calls ([] ++ (k ++ (name ++ (gap ++ '(' :: v)))) := .intro .nil hk hn hname hg
    simpa using hcalls

variable {descend : Call → Except Fault Widget}

/-- Text that is no call is one item without a widget, up to the next comma. -/
theorem readMember_other (h : Sealed false previous u) (hno : ¬ Calls u) (hb : Preceded previous behind)
    (hr : CommaNext rest) : readMember descend ⟨behind, u ++ rest⟩ = .ok (none, u.length) := by
  have hraw := rawLength_sealed h hb hr
  have hitem : readItem ⟨behind, u ++ rest⟩ = .ok (none, u.length) := by
    have hu : (Cursor.mk behind (u ++ rest)).forward (keywordLength (u ++ rest)) =
        unworded ⟨behind, u ++ rest⟩ := rfl
    simp only [readItem, hu, opening_eq]
    split
    · rename_i hc
      exact absurd (calls_of_opening hraw hr hc.1 hc.2) hno
    · rw [← hraw]
      rfl
  rw [readMember, hitem]
  rfl

theorem readMember_widget {w : Widget} (h : Layout (.call w) u) (hw : w.Nested) (hd : Reads descend w)
    (behind rest : List Char) :
    readMember descend ⟨behind, u ++ rest⟩ = .ok (some w, u.length) := by
  obtain ⟨call, hi, hc⟩ := readItem_widget h hw hd behind rest
  rw [readMember, hi]
  change (descend call >>= _) = _
  rw [hc]
  rfl

/-- Where the rest of a list begins makes no difference among separators. -/
theorem readAll_skip {α : Type} {item : Cursor → Except Fault (α × Nat)} {gap : List Char}
    (hg : Trivia gap) (found : List α) (behind rest : List Char) :
    readAll item found ⟨behind, gap ++ rest⟩ = readAll item found ⟨gap.reverse ++ behind, rest⟩ :=
  readAll_congr (separated_append (Trivia.separators hg) behind rest) found

/-- An item is read as what it is, unless it is blank. -/
theorem ItemText.readAll_eq {item : Option Widget} (h : ItemText item u)
    (hd : ∀ w, item = some w → Reads descend w) (hb : Preceded ',' behind)
    (hr : CommaNext rest) (found : List (Option Widget)) :
    readAll (readMember descend) found ⟨behind, u ++ rest⟩ =
        readAll (readMember descend) (item :: found) ⟨u.reverse ++ behind, rest⟩ ∨
      item = none ∧ readAll (readMember descend) found ⟨behind, u ++ rest⟩ =
        readAll (readMember descend) found ⟨u.reverse ++ behind, rest⟩ := by
  cases h with
  | @widget w lead u trail hl hw hu ht =>
    have hfirm := (hu.firm_call hw.isName).append (trail ++ rest)
    have hmember := readMember_widget hu hw (hd w rfl) (lead.reverse ++ behind) (trail ++ rest)
    have hread := Listed.readAll_cons (Trivia.separators hl) (hu.firm_call hw.isName).ne_nil
      hfirm.solid_separators hmember found
    rw [readAll_skip ht] at hread
    left
    simpa using hread
  | other hu hno =>
    obtain ⟨gap, v, next, rfl, hg, hsolid, hv, hnext⟩ := hu.gap_split
    have hno : ¬ Calls v := fun hc => hno (hc.trivia hg)
    cases v with
    | nil =>
      right
      simpa using readAll_skip hg found behind rest
    | cons c v =>
      have hcomma : c ≠ ',' := fun he => hv.head?_ne_comma (by rw [he]; rfl)
      have hseparators : Solid (fun c => isBlank c || c == ',') (c :: v ++ rest) := by
        obtain ⟨hblank, hslash⟩ := solid_cons_iff.mp (hr.divided.solid_append hsolid)
        exact solid_cons_iff.mpr ⟨by simp [hblank, hcomma], hslash⟩
      have hmember : readMember descend ⟨gap.reverse ++ behind, c :: v ++ rest⟩ = _ :=
        readMember_other hv hno (hnext hb) hr
      have hread := Listed.readAll_cons (Trivia.separators hg) (List.cons_ne_nil c v) hseparators
        hmember found
      left
      simpa using hread

/-- The items of a list are read in their order, and the blank ones are not read at all. -/
theorem ItemsText.readAll_eq {items : List (Option Widget)} (h : ItemsText items u)
    (hd : ∀ w, some w ∈ items → Reads descend w) (hb : Preceded ',' behind)
    (found : List (Option Widget)) :
    ∃ read, readAll (readMember descend) found ⟨behind, u⟩ = .ok (found.reverse ++ read) ∧
      read.filterMap id = items.filterMap id := by
  induction h generalizing behind found with
  | @last item u hu =>
    have hend : ∀ found, readAll (readMember descend) found ⟨u.reverse ++ behind, []⟩ =
        .ok found.reverse := fun found => Listed.readAll_nil .nil found _
    have hread := hu.readAll_eq (fun w hw => hd w (by simp [hw])) hb (.inl rfl) found
    rw [List.append_nil, hend, hend] at hread
    rcases hread with hread | ⟨rfl, hread⟩
    · exact ⟨[item], by simpa using hread, rfl⟩
    · exact ⟨[], by simpa using hread, rfl⟩
  | @more item items u v hu hv ih =>
    have hcomma : ∀ found, readAll (readMember descend) found ⟨u.reverse ++ behind, ',' :: v⟩ =
        readAll (readMember descend) found ⟨',' :: (u.reverse ++ behind), v⟩ :=
      fun found => Listed.readAll_comma .nil found _
    have hb' : Preceded ',' (',' :: (u.reverse ++ behind)) := rfl
    have ih := ih (fun w hw => hd w (List.mem_cons_of_mem _ hw)) hb'
    have hnext : CommaNext (',' :: v) := .inr rfl
    have hread := hu.readAll_eq (fun w hw => hd w (by simp [hw])) hb hnext found
    rw [hcomma, hcomma] at hread
    rcases hread with hread | ⟨rfl, hread⟩
    · obtain ⟨read, hall, hitems⟩ := ih (item :: found)
      refine ⟨item :: read, by rw [hread, hall]; simp, ?_⟩
      rw [List.filterMap_cons, List.filterMap_cons, hitems]
    · obtain ⟨read, hall, hitems⟩ := ih found
      exact ⟨read, by rw [hread, hall], by simpa using hitems⟩

theorem ItemText.crosses {item : Option Widget} (h : ItemText item u)
    (hb : Preceded ',' behind) (hr : Divided rest) : Crosses behind u rest := by
  cases h with
  | @widget w lead u trail hl hw hu ht =>
    have hfirm := (hu.firm_call hw.isName).append (trail ++ rest)
    have hlead : Crosses behind lead (u ++ trail ++ rest) := by
      rw [List.append_assoc]
      exact hl.crosses hfirm.solid behind
    have hcall : Crosses (lead.reverse ++ behind) u (trail ++ rest) := hu.crosses hw.whole trivial trivial
    exact hlead.append (hcall.append (ht.crosses (solid_of_separator hr) _))
  | other hu _ => exact hu.crosses hb hr

theorem ItemsText.crosses {items : List (Option Widget)} (h : ItemsText items u)
    (hb : Preceded ',' behind) (hr : Divided rest) : Crosses behind u rest := by
  induction h generalizing behind with
  | last hu => exact hu.crosses hb hr
  | @more item items u v hu _ ih =>
    have hitem : Crosses behind u (',' :: v ++ rest) := hu.crosses hb (CommaNext.divided (.inr rfl))
    have hb' : Preceded ',' (',' :: (u.reverse ++ behind)) := rfl
    have hrest : Crosses (',' :: (u.reverse ++ behind)) v rest := ih hb'
    exact hitem.append (((mark_of_mem (by simp)).crosses _ _).cons hrest)

theorem ItemsText.nested {items : List (Option Widget)} (h : ItemsText items u) {w : Widget}
    (hw : some w ∈ items) : w.Nested := by
  have hone : ∀ {item u}, ItemText item u → some w = item → w.Nested := by
    rintro item u hu rfl
    cases hu with
    | widget _ hw _ _ => exact hw
  induction h with
  | last hu => exact hone hu (List.mem_singleton.mp hw)
  | more hu _ ih =>
    rcases List.mem_cons.mp hw with he | hw
    · exact hone hu he
    · exact ih hw

/-- A list literal is read up to its closing bracket, whatever stands behind it, and gives the widgets among
its items in their order. All other items are passed, whatever they hold. -/
theorem readArgument_items {items : List (Option Widget)} (h : ItemsText items u) {allowed left : Nat}
    (hdepth : ∀ w, some w ∈ items → w.depth ≤ left) {keyword types : List Char}
    (hk : Keyword (types ++ '[' :: (u ++ [']'])) keyword) (ht : TypesInFront types)
    (behind rest : List Char) :
    ∃ form, readForm ⟨behind, keyword ++ (types ++ '[' :: (u ++ [']'])) ++ rest⟩ =
        .ok (form, (keyword ++ (types ++ '[' :: (u ++ [']']))).length) ∧
      readArgument (readWidget allowed left) form = .ok (.widgets (items.filterMap id)) := by
  have hstart : ∀ behind, Preceded ',' ('[' :: behind) :=
    fun _ => show isNameChar '[' = isNameChar ',' by decide
  have hcross : Crosses ['['] u (']' :: rest) := h.crosses (hstart []) (divided_closer (c := '[') rfl rest)
  have hreads : ∀ w, some w ∈ items → Reads (readWidget allowed left) w :=
    fun w hw => reads_readWidget (h.nested hw).sound (hdepth w hw)
  obtain ⟨read, hread, hitems⟩ := h.readAll_eq hreads (hstart (types.reverse ++ (keyword.reverse ++ behind))) []
  rw [List.append_assoc]
  refine ⟨_, readForm_list ht hk (hcross.closing? rfl '\n') behind, ?_⟩
  change (readWidgets _ _ >>= _) = _
  rw [readWidgets_eq, hread, ← hitems]
  rfl

theorem not_calls {c : Char} {cs : List Char} (hb : isBlank c = false) (hs : c ≠ '/')
    (hn : isNameStart c = false) : ¬ Calls (c :: cs) := by
  have hname : ∀ {name rest : List Char}, IsName name → c :: cs ≠ name ++ rest := by
    intro name rest h he
    cases name with
    | nil => exact h
    | cons d name =>
      rw [(List.cons.inj he).1, h.1] at hn
      exact absurd hn (by decide)
  intro h
  generalize hu : c :: cs = u at h
  cases h with
  | @intro lead keyword name gap more hl hk hw =>
    cases hl with
    | nil =>
      cases hk with
      | none => exact hname hw hu
      | word hm _ _ =>
        rw [List.nil_append, List.append_assoc] at hu
        exact hname (isName_of_mem_keywords _ hm) hu
    | fill hd _ =>
      rw [← (List.cons.inj hu).1, hb] at hd
      exact absurd hd (by decide)
    | line _ _ | block _ _ => exact hs (List.cons.inj hu).1

end

/-- A list whose first item holds what would be a widget on its own. -/
theorem readArgument_spread :
    let row : Widget := ⟨"Row", ∅, none, .none⟩
    let items := "...['a, b', Row()], new Row()".toList
    ItemsText [none, some row] items ∧ row.depth ≤ 1 ∧
      ∃ form, readForm ⟨[], [] ++ ([] ++ '[' :: (items ++ [']'])) ++ [')']⟩ = .ok (form, 31) ∧
        readArgument (readWidget 100 1) form = .ok (.widgets [row]) := by
  intro row items
  have hrow : row.Nested := ⟨by decide, by decide, Widget.sound_bare (by simp)⟩
  have hdepth : row.depth ≤ 1 := (Widget.depth_eq_one rfl).le
  have hblank : Trivia [' '] := .fill (by decide) .nil
  have hwords : "new Row()".toList =
      "new".toList ++ [' '] ++ (row.name.toList ++ ([] ++ '(' :: ([] ++ [')']))) := by
    decide
  have hcall : Layout (.call row) "new Row()".toList := by
    rw [hwords]
    exact .call (.word (by decide) hblank (ends_cons (by decide) _)) .nil
      (.arguments rfl .none (.nil .nil))
  have hempty : Sealed true 'w' "()".toList := @Sealed.brackets _ _ '(' ')' [] [] rfl (.nil _ _) (.nil _ _)
  have hafter : Sealed true '\'' ", Row()".toList :=
    Sealed.marks (v := ", Row".toList) (List.forall_iff_forall_mem.mp (by decide)) (fun _ => rfl) hempty
  have hquoted : Delimiter.Encodes ⟨'\'', false, false⟩ "a, b".toList "a, b".toList :=
    .plain (by decide) (by decide) (.plain (by decide) (by decide)
      (.plain (by decide) (by decide) (.plain (by decide) (by decide) .nil)))
  have hinside : Sealed true '[' "'a, b', Row()".toList :=
    @Sealed.string _ _ ⟨'\'', false, false⟩ "a, b".toList "a, b".toList ", Row()".toList (by decide)
      (fun hr => nomatch hr) hquoted (fun _ hc => nomatch hc) hafter
  have hbrackets : Sealed false '.' "['a, b', Row()]".toList :=
    @Sealed.brackets _ _ '[' ']' "'a, b', Row()".toList [] rfl hinside (.nil _ _)
  have hspread : Sealed false ',' "...['a, b', Row()]".toList :=
    Sealed.marks (v := "...".toList) (List.forall_iff_forall_mem.mp (by decide)) (by decide) hbrackets
  have hitems : ItemsText [none, some row] items :=
    .more (.other hspread (not_calls (by decide) (by decide) (by decide)))
      (.last (@ItemText.widget row [' '] "new Row()".toList [] hblank hrow hcall .nil))
  have hall : ∀ w, some w ∈ [none, some row] → w.depth ≤ 1 := by
    intro w hw
    obtain rfl : w = row := by simpa using hw
    exact hdepth
  exact ⟨hitems, hdepth, readArgument_items hitems hall .none .none [] [')']⟩

end WidgetJsx
