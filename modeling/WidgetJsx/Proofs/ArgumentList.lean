import WidgetJsx.Proofs.Agreement
import WidgetJsx.Proofs.Listed

/-! Argument lists of constructor calls, where arguments with and without a key stand in any order. No
value that can be written starts with what looks like a key, so each argument is read from its own text
and the list is read in full: the values without a key in their order, and for each key the last value
written for it. -/

namespace WidgetJsx

open Expression Text

namespace Layout

variable {a : Argument Widget} {u behind rest : List Char}

/-- What is written for a value does not start with a key. -/
theorem keyless (h : Layout (.value a) u) (ha : a.Sound)
    (hb : isNameChar (behind.headD '\n') = false) (hr : Follows rest) :
    Keyless (u ++ rest) := by
  have hfollows := hr
  obtain ⟨gap, more, rfl, hg, hm⟩ := hr
  have hcolon : more.head? ≠ some ':' := by
    intro he
    rcases hm ':' he with hc | hc <;> exact absurd hc (by decide)
  have hsolid := solid_of_separator hm
  cases h with
  | string hl => exact keyless_of_startsString (hl.reads hb hfollows.breaks).1
  | number text => exact IsNumber.keyless ha.1 hfollows.breaks
  | boolean value =>
    have hname : ∀ value : Bool, IsName (toString value).toList := by decide
    exact (hname value).keyless hg hfollows.breaks.ends hsolid hcolon
  | reference hk =>
    obtain ⟨names, hp, -⟩ := ha.1
    exact hk.keyless hp.firm (hp.keyless hg hfollows.breaks.ends hsolid hcolon)
  | construction hk =>
    obtain ⟨names, path, gap', body, hp, -, hg', -, ht, -⟩ := ha.1
    rw [ht] at hk ⊢
    refine hk.keyless (hp.firm.append _) ?_
    have := hp.keyless_call hg' (body ++ [')'] ++ (gap ++ more))
    simpa using this
  | widget h =>
    have hn := (ha.2 _ (List.mem_singleton_self _)).isName
    cases h with
    | @call _ keyword gap' body hk hg' _ =>
      refine hk.keyless (hn.firm.append _) ?_
      have := (pathOf_singleton hn).keyless_call hg' (body ++ [')'] ++ (gap ++ more))
      simpa using this
  | @widgets ws keyword types items hk ht _ =>
    refine hk.keyless (ht.firm _) ?_
    rw [List.append_assoc]
    exact ht.keyless _

end Layout

namespace Entry

variable {entry : Entry} {entries : List Entry} {u behind rest : List Char}

/-- The argument can be written. -/
structure Sound (entry : Entry) : Prop where
  isName : ∀ key, entry.key? = some key → IsName key.toList
  value : entry.value.Sound

/-- The texts that an argument may be written as. -/
inductive WrittenAs : Entry → List Char → Prop
  | positional {value : Argument Widget} {u : List Char} : Layout (.value value) u →
      WrittenAs ⟨none, value⟩ u
  | named {key : String} {value : Argument Widget} {u : List Char} :
      Layout (.member (.entry key value)) u → WrittenAs ⟨some key, value⟩ u

theorem WrittenAs.firm (h : entry.WrittenAs u) (hs : entry.Sound) : Firm u := by
  cases h with
  | positional h => exact h.firm_value hs.value
  | named h => exact h.firm_member ⟨hs.isName _ rfl, hs.value⟩

theorem WrittenAs.crosses (h : entry.WrittenAs u) (hs : entry.Sound)
    (hb : isNameChar (behind.headD '\n') = false) (hr : Follows rest) : Crosses behind u rest := by
  cases h with
  | positional h => exact Layout.crosses (p := .value _) h hs.value hb hr
  | named h =>
    exact Layout.crosses (p := .member (.entry _ _)) h ⟨hs.isName _ rfl, hs.value⟩ trivial hr

theorem WrittenAs.readEntry_eq {descend : Call → Except Fault Widget} (h : entry.WrittenAs u)
    (hs : entry.Sound) (hd : ∀ v ∈ entry.value.held, Reads descend v)
    (hb : isNameChar (behind.headD '\n') = false) (hr : Follows rest) :
    readEntry descend ⟨behind, u ++ rest⟩ = .ok (entry, u.length) := by
  cases h with
  | @positional value u h =>
    obtain ⟨form, hf, hv⟩ := readArgument_value h hs.value hd hb hr
    rw [WidgetJsx.readEntry_eq, entryLead_eq_none (h.keyless hs.value hb hr)]
    simp only [Cursor.forward_zero, Nat.zero_add]
    rw [hf]
    change (readArgument descend form >>= _) = _
    rw [hv]
    rfl
  | named h => exact readEntry_member h ⟨hs.isName _ rfl, hs.value⟩ hd hr behind

theorem Sound.exists_writtenAs (hs : entry.Sound) : ∃ u, entry.WrittenAs u := by
  obtain ⟨u, hu⟩ := exists_layout_value hs.value fun v hv => exists_layout_call (hs.value.2 v hv).sound
  rcases entry with ⟨_ | key, value⟩
  · exact ⟨u, .positional hu⟩
  · exact ⟨_, .named (.entry .nil .nil hu)⟩

theorem starting_value : Listed.Starting fun behind => isNameChar (behind.headD '\n') = false where
  gap := Separators.previous
  comma _ := show isNameChar ',' = false by decide

theorem readEntries_eq {descend : Call → Except Fault Widget} (h : Listed WrittenAs entries u)
    (hs : ∀ entry ∈ entries, entry.Sound)
    (hd : ∀ entry ∈ entries, ∀ v ∈ entry.value.held, Reads descend v)
    (hb : isNameChar (behind.headD '\n') = false) :
    readEntries descend ⟨behind, u⟩ = .ok entries := by
  have hread := h.readAll_eq starting_value (f := id) (fun entry he u hu => hu.firm (hs entry he))
    (fun entry he _ _ _ hu hb hr => hu.readEntry_eq (hs entry he) (hd entry he) hb hr) hb []
  simpa [readEntries] using hread

theorem closing?_eq (h : Listed WrittenAs entries u) (hs : ∀ entry ∈ entries, entry.Sound)
    (previous : Char) (rest : List Char) :
    closing? previous ('(' :: (u ++ ')' :: rest)) = some (u.length + 1) := by
  have hc : Crosses ['('] u (')' :: rest) :=
    h.crosses starting_value (fun entry he u hu => hu.firm (hs entry he))
      (fun entry he _ _ _ hu hb hr => hu.crosses (hs entry he) hb hr)
      (show isNameChar '(' = false by decide) (shut_cons (c := '(') rfl rest)
  exact hc.closing? rfl previous

theorem positional_eq (entries : List Entry) :
    positional entries = (entries.filter (·.key?.isNone)).map (·.value) := by
  induction entries with
  | nil => rfl
  | cons entry entries ih =>
    rcases entry with ⟨_ | key, value⟩
    · exact congrArg (value :: ·) ih
    · exact ih

theorem keys_named (entries : List Entry) :
    (named entries).keys = (entries.filterMap (·.key?)).eraseDups := by
  rw [named, Fields.keys_ofList, List.map_filterMap]
  simp [Function.comp_def]

theorem get?_named (entries : List Entry) (key : String) :
    (named entries).get? key = (entries.reverse.find? (·.key? == some key)).map (·.value) := by
  rw [named, Fields.get?_ofList, ← List.filterMap_reverse]
  generalize entries.reverse = entries
  induction entries with
  | nil => rfl
  | cons entry entries ih =>
    rcases entry with ⟨_ | key', value⟩
    · exact ih
    · by_cases hk : key = key'
      · simp [hk]
      · rw [List.find?_cons_of_neg (by simpa using Ne.symm hk), ← ih]
        exact Fields.lookup_cons_ne hk _ _

end Entry

namespace Construction

/-- The source texts that a call with these arguments may be written as. -/
inductive WrittenAs (path : List Char) (entries : List Entry) : List Char → Prop
  | intro {lead keyword gap body trail : List Char} : Trivia lead →
      Keyword (path ++ (gap ++ '(' :: (body ++ [')']))) keyword → Trivia gap →
      Listed Entry.WrittenAs entries body → Terminators trail →
      WrittenAs path entries
        (lead ++ (keyword ++ (path ++ (gap ++ '(' :: (body ++ [')'])) ++ trail)))

section

variable {names : List (List Char)} {path : List Char} {entries : List Entry} {source : List Char}
  (hp : PathOf names path) (hn : ∀ word ∈ keywords, names.head? ≠ some word.toList)
include hp hn

/-- The call that is written is read up to the end of the text. -/
theorem WrittenAs.readCall_eq (h : WrittenAs path entries source) (hs : ∀ entry ∈ entries, entry.Sound) :
    ∃ behind body rest, readCall (.ofList source) =
        .ok (⟨String.ofList path, ⟨'(' :: behind, body⟩⟩, rest) ∧
      Listed Entry.WrittenAs entries body ∧ expectEnd rest = .ok () := by
  cases h with
  | @intro lead keyword gap body trail hl hk hg hb ht =>
    obtain ⟨rest, hr, he⟩ := readCall_written hp hn hl hk hg (Entry.closing?_eq hb hs '\n' trail) ht
    exact ⟨_, body, rest, hr, hb, he⟩

end

theorem exists_writtenAs {entries : List Entry} (hs : ∀ entry ∈ entries, entry.Sound) (path : List Char) :
    ∃ source : String, WrittenAs path entries source.toList := by
  obtain ⟨body, hb⟩ := Listed.exists_of_written fun entry he => (hs entry he).exists_writtenAs
  have hkeyword : Keyword (path ++ ([] ++ '(' :: (body ++ [')']))) [] := .none
  refine ⟨String.ofList (path ++ '(' :: (body ++ [')'])), ?_⟩
  simpa using WrittenAs.intro .nil hkeyword .nil hb (.closed .nil)

variable {name : String} {entries : List Entry}

/-- An argument list is read back in full from every text that it may be written as: the values without a
key in their order, and each key once, where it first stands, with the value that it has last. -/
theorem read_arguments {names : List (List Char)} (hp : PathOf names name.toList)
    (hn : ∀ word ∈ keywords, names.head? ≠ some word.toList)
    (hs : ∀ entry ∈ entries, entry.Sound)
    (hd : ∀ entry ∈ entries, ∀ v ∈ entry.value.held, v.depth ≤ Limits.standard.depth) {source : String}
    (hw : WrittenAs name.toList entries source.toList)
    (hbytes : source.utf8ByteSize ≤ Limits.standard.bytes) :
    ∃ c, Construction.read source = .ok c ∧ c.name = name ∧
      c.positional = (entries.filter (·.key?.isNone)).map (·.value) ∧
      c.named.keys = (entries.filterMap (·.key?)).eraseDups ∧
      ∀ key, c.named.get? key = (entries.reverse.find? (·.key? == some key)).map (·.value) := by
  obtain ⟨behind, body, rest, hc, hb, he⟩ := hw.readCall_eq hp hn hs
  have hreads : ∀ entry ∈ entries, ∀ v ∈ entry.value.held,
      Reads (readWidget Limits.standard.depth Limits.standard.depth) v := fun entry hm v hv =>
    reads_readWidget ((hs entry hm).value.2 v hv).sound (hd entry hm v hv)
  have hprevious : isNameChar (('(' :: behind).headD '\n') = false :=
    show isNameChar '(' = false by decide
  have hentries := Entry.readEntries_eq hb hs hreads hprevious
  refine ⟨_, read_eq_ok_iff.mpr ⟨hbytes, _, rest, entries, hc, hentries, he, rfl⟩, ?_, ?_, ?_, ?_⟩
  · exact String.ofList_toList
  · exact Entry.positional_eq entries
  · exact Entry.keys_named entries
  · exact Entry.get?_named entries

theorem read_arguments_mixed :
    let row : Widget := ⟨"Row", ⟨[]⟩, none, .none⟩
    let entries : List Entry :=
      [⟨none, .string "x"⟩, ⟨some "k", .number "1"⟩, ⟨none, .widget row⟩, ⟨some "k", .reference "c.d"⟩]
    let source := "new a.B('x', k: 1,, Row(), k:c.d,);"
    (∀ entry ∈ entries, entry.Sound) ∧ WrittenAs "a.B".toList entries source.toList ∧
      ∃ c, Construction.read source = .ok c ∧ c.name = "a.B" ∧
        c.positional = [.string "x", .widget row] ∧ c.named.keys = ["k"] ∧
          c.named.get? "k" = some (.reference "c.d") := by
  intro row entries source
  have hrow : row.Nested := ⟨by decide, by decide, Widget.sound_bare (by simp)⟩
  have hnumber : IsNumber "1".toList := by
    exact @IsNumber.whole [] ['1'] (.inl rfl) ⟨by simp, by simp⟩
  have hpath : PathOf [['c'], ['d']] "c.d".toList := ⟨by decide, by decide, by decide⟩
  have hkey : ∀ key : String, some "k" = some key → IsName key.toList := by
    rintro key ⟨⟩
    decide
  have hs : ∀ entry ∈ entries, entry.Sound := by
    intro entry he
    simp only [entries, List.mem_cons, List.not_mem_nil, or_false] at he
    rcases he with rfl | rfl | rfl | rfl
    · exact ⟨by simp, trivial, by simp [Argument.held]⟩
    · exact ⟨hkey, hnumber, by simp [Argument.held]⟩
    · exact ⟨by simp, trivial, by simpa [Argument.held] using hrow⟩
    · exact ⟨hkey, ⟨_, hpath, by decide, by unfold Unreserved; decide⟩, by simp [Argument.held]⟩
  have hblank : Trivia [' '] := .fill (by decide) .nil
  have hstring : Entry.WrittenAs ⟨none, .string "x"⟩ "'x'".toList :=
    .positional (@Layout.string _ ⟨'\'', false, false⟩ _
      ⟨by decide, ['x'], by decide, .plain (by decide) (by decide) .nil⟩)
  have hone : Entry.WrittenAs ⟨some "k", .number "1"⟩ "k: 1".toList :=
    .named (@Layout.entry "k" _ [] [' '] _ .nil hblank (.number "1"))
  have hcall : Layout (.call ⟨"Row", ⟨[]⟩, none, .none⟩) "Row()".toList :=
    @Layout.call _ [] [] [] .none .nil (.arguments rfl .none (.nil .nil))
  have hwidget : Entry.WrittenAs ⟨none, .widget row⟩ "Row()".toList := .positional (.widget hcall)
  have hreference : Entry.WrittenAs ⟨some "k", .reference "c.d"⟩ "k:c.d".toList :=
    .named (@Layout.entry "k" _ [] [] _ .nil .nil (.reference .none))
  have hlist : Listed Entry.WrittenAs entries "'x', k: 1,, Row(), k:c.d,".toList :=
    @Listed.more _ _ _ _ [] _ [] _ .nil hstring .nil
      (@Listed.more _ _ _ _ [' '] _ [] _ (Trivia.separators hblank) hone .nil
        (@Listed.more _ _ _ _ [',', ' '] _ [] _ (.fill (by decide) (Trivia.separators hblank)) hwidget .nil
          (@Listed.more _ _ _ _ [' '] _ [] _ (Trivia.separators hblank) hreference .nil (.nil .nil))))
  have hends : Ends ([' '] ++ ("a.B".toList ++ ([] ++ '(' :: ("'x', k: 1,, Row(), k:c.d,".toList ++ [')'])))) :=
    ends_cons (by decide) _
  have hsource : source.toList = [] ++ ("new".toList ++ [' '] ++ ("a.B".toList ++ ([] ++
      '(' :: ("'x', k: 1,, Row(), k:c.d,".toList ++ [')'])) ++ [';'])) := by
    decide
  have hw : WrittenAs "a.B".toList entries source.toList := by
    rw [hsource]
    exact .intro .nil (.word (by decide) hblank hends) .nil hlist (.closed (.fill (by decide) .nil))
  have hp : PathOf [['a'], ['B']] "a.B".toList := ⟨by decide, by decide, by decide⟩
  have hd : ∀ entry ∈ entries, ∀ v ∈ entry.value.held, v.depth ≤ Limits.standard.depth := by
    have hdepth : row.depth ≤ Limits.standard.depth :=
      (Widget.depth_eq_one rfl).trans_le (by decide)
    simpa [entries, Argument.held] using hdepth
  obtain ⟨c, hc, hname, hpositional, hkeys, hget⟩ :=
    read_arguments hp (by decide) hs hd hw (by cbv)
  exact ⟨hs, hw, c, hc, hname, hpositional, hkeys.trans (by decide), hget "k"⟩

end Construction

end WidgetJsx
