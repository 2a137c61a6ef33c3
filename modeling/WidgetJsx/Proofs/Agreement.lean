import WidgetJsx.Proofs.RoundTrip
import WidgetJsx.Proofs.Subtree

/-! A source text that is read as a widget is read as a construction too, with the same arguments. A
widget that shows text passes over its leading string by itself, and finds what a construction finds
if a comma or the end follows the string. -/

namespace WidgetJsx

open Expression Text

/-- The content is put back where it was split off. -/
theorem Content.among_split (fs : Fields (Argument Widget)) :
    Among (split fs).1 (split fs).2 fs.entries := by
  have herase : ∀ {key : String} {value : Argument Widget}, fs.get? key = some value →
      ∃ front back, fs.entries = front ++ (key, value) :: back ∧
        (fs.erase key).entries = front ++ back := by
    intro key value h
    obtain ⟨front, back, he, hf⟩ := List.lookup_eq_some_iff.mp h
    have hne : ∀ entry ∈ front, entry.1 ≠ key := fun entry hm heq => by simpa [heq] using hf entry hm
    refine ⟨front, back, he, ?_⟩
    obtain ⟨entries⟩ := fs
    subst he
    rw [Fields.erase_append hne]
  rcases split_cases fs with ⟨w, hg, he⟩ | ⟨-, ws, hg, he⟩ | ⟨-, -, he⟩
  · obtain ⟨front, back, hfs, hrest⟩ := herase hg
    rw [he, hfs]
    exact .child hrest
  · obtain ⟨front, back, hfs, hrest⟩ := herase hg
    rw [he, hfs]
    exact .children hrest
  · rw [he]
    exact .none

theorem exists_string_of_readLeadingText? {call : Call} {text : String} {tail : Cursor}
    (h : readLeadingText? call = .ok (some (text, tail))) :
    ∃ s n, s = call.arguments.forward (triviaLength call.arguments.ahead) ∧
      startsString s.previous s.ahead = true ∧ readForm s = .ok (.string text, n) ∧ 2 ≤ n ∧
        tail = (s.forward n).forward (triviaLength (s.forward n).ahead) := by
  simp only [readLeadingText?] at h
  split at h
  · rename_i hs
    have hs := ((Bool.and_eq_true _ _).mp hs).2
    split at h
    · rename_i n hn
      cases h
      refine ⟨_, n, rfl, hs, ?_, (two_le_of_stringLength? hs hn).1, rfl⟩
      rw [readForm, if_pos hs, hn]
      rfl
    · cases h
  · cases h

section

variable {s : Cursor}

theorem solid_of_startsString {filler : Char → Bool}
    (hf : filler '\'' = false ∧ filler '"' = false ∧ filler 'r' = false)
    (h : startsString s.previous s.ahead = true) : Solid filler s.ahead := by
  rcases startsString_cases h with ⟨q, ds, ha, -, -⟩ | ⟨q, ds, ha, hq⟩
  · rw [ha]
    exact solid_cons hf.2.2 (by decide) _
  · rw [ha]
    rcases isQuote_cases hq with rfl | rfl
    · exact solid_cons hf.1 (by decide) _
    · exact solid_cons hf.2.1 (by decide) _

theorem entryLead_eq_none (h : Keyless s.ahead) : entryLead s = (none, 0) := by
  rw [entryLead, h.readKey?_eq_none s.behind]

end

/-- A leading text is followed by a comma, or nothing follows it. -/
def Detached (call : Call) : Prop :=
  ∀ text tail, readLeadingText? call = .ok (some (text, tail)) →
    tail.next? = none ∨ tail.next? = some ','

section

variable {descend descend' : Call → Except Fault Widget} {call : Call} {w : Widget}

/-- Read as an argument, a leading text comes first and has no name. -/
theorem readEntries_leadingText {text : String} {tail : Cursor}
    (h : readLeadingText? call = .ok (some (text, tail)))
    (ht : tail.next? = none ∨ tail.next? = some ',') : readEntries descend call.arguments =
      (if tail.next? = some ',' then readEntries descend (tail.forward 1) else .ok []) >>=
        fun entries => .ok (⟨none, .string text⟩ :: entries) := by
  obtain ⟨s, n, hs, hstring, hform, hn, rfl⟩ := exists_string_of_readLeadingText? h
  have hsolid : separatorsLength s.ahead = 0 := solid_of_startsString (by decide) hstring
  have hseparated : separated call.arguments = s := by
    rw [← separated_forward_trivia, ← hs, separated, hsolid, Cursor.forward_zero]
  have hne : (separated call.arguments).ahead ≠ [] := by
    rw [hseparated]
    intro hnil
    simp [hnil, startsString] at hstring
  have hitem : readEntry descend s = .ok (⟨none, .string text⟩, n) := by
    rw [readEntry_eq, entryLead_eq_none (keyless_of_startsString hstring)]
    simp only [Cursor.forward_zero, Nat.zero_add]
    rw [hform]
    rfl
  -- The reader of the text passes the gap behind it, which is passed with the separators too.
  have hrest : separated ((s.forward n).forward (triviaLength (s.forward n).ahead)) =
      separated (s.forward n) := separated_forward_trivia _
  rw [readEntries, readAll_step hne (hseparated ▸ hitem), hseparated, Nat.max_eq_right (by omega),
    ← readAll_congr hrest]
  generalize (s.forward n).forward (triviaLength (s.forward n).ahead) = tail at ht ⊢
  have hfront := @readAll_append _ (readEntry descend) [] [⟨none, .string text⟩] tail
  rw [List.nil_append] at hfront
  rw [hfront]
  by_cases hcomma : tail.next? = some ','
  · rw [if_pos hcomma, readEntries, readAll_congr (separated_forward_comma hcomma)]
    rfl
  · have hnil : tail.ahead = [] := List.head?_eq_none_iff.mp (ht.resolve_right hcomma)
    have hend : (separated tail).ahead = [] := by rw [separated, Cursor.forward_ahead, hnil, List.drop_nil]
    rw [if_neg hcomma, readAll_end hend]
    rfl

/-- The entries of a call, read with as many levels as there are for the widgets in them, are what the
widget itself is made of. -/
theorem exists_entries_of_readBody_detached (hd : ∀ call, Refines (descend call) (descend' call))
    (h : readBody descend call = .ok w) (hc : Detached call) :
    ∃ entries, readEntries descend' call.arguments = .ok entries ∧
      Content.Among w.arguments w.content (Entry.named entries).entries ∧
      ∀ text, w.text? = some text → (Entry.positional entries).head? = some (.string text) := by
  obtain ⟨leading?, hl, -⟩ := exists_of_bind_eq_ok h
  cases leading? with
  | none =>
    rw [readBody_split hl] at h
    obtain ⟨entries, he, h⟩ := exists_of_bind_eq_ok h
    cases h
    exact ⟨entries, Refines.readEntries hd _ entries he, Content.among_split _, by simp⟩
  | some leading =>
    obtain ⟨text, tail⟩ := leading
    rw [readBody_text hl] at h
    obtain ⟨entries, he, h⟩ := exists_of_bind_eq_ok h
    cases h
    have hentries : (if tail.next? = some ',' then readEntries descend' (tail.forward 1) else .ok []) =
        .ok entries := by
      by_cases hcomma : tail.next? = some ','
      · rw [if_pos hcomma] at he ⊢
        exact Refines.readEntries hd _ entries he
      · rwa [if_neg hcomma] at he ⊢
    refine ⟨⟨none, .string text⟩ :: entries, ?_, .none, ?_⟩
    · rw [readEntries_leadingText hl (hc text tail hl), hentries]
      rfl
    · rintro _ ⟨rfl⟩
      rfl

end

/-- What a widget is made of is what a construction finds in the same source, with the content put back
at its place, if no leading text runs on. -/
theorem Widget.read_agrees {source : String} {node : Widget}
    (h : Widget.read .standard source = .ok node)
    (hd : ∀ call rest, readCall (.ofList source.toList) = .ok (call, rest) → Detached call) :
    ∃ c, Construction.read source = .ok c ∧ c.name = node.name ∧
      Content.Among node.arguments node.content c.named.entries ∧
      ∀ text, node.text? = some text → c.positional.head? = some (.string text) := by
  obtain ⟨hb, call, rest, hc, -, hr, he⟩ := read_eq_ok_iff.mp h
  obtain ⟨left, hleft, hbody⟩ := readWidget_eq_ok hr
  have hmono := readWidget_mono Limits.standard.depth (show left ≤ Limits.standard.depth by omega)
  obtain ⟨entries, hentries, hamong, hfirst⟩ :=
    exists_entries_of_readBody_detached hmono hbody (hd call rest hc)
  exact ⟨⟨call.name, Entry.positional entries, Entry.named entries⟩,
    Construction.read_eq_ok_iff.mpr ⟨hb, call, rest, entries, hc, hentries, he, rfl⟩,
    (name_of_readBody hbody).symm, hamong, hfirst⟩

set_option maxRecDepth 4000 in
theorem Widget.read_agrees_text : ∃ c, Construction.read "Text('a', size: 1)" = .ok c ∧ c.name = "Text" ∧
    Content.Among ⟨[("size", .number "1")]⟩ .none c.named.entries ∧
    ∀ text, some "a" = some text → c.positional.head? = some (.string text) := by
  have h : Widget.read .standard "Text('a', size: 1)" =
      .ok ⟨"Text", ⟨[("size", .number "1")]⟩, some "a", .none⟩ := by cbv
  refine Widget.read_agrees h fun call rest hc text tail ht => .inr ?_
  have hcall : readCall (.ofList "Text('a', size: 1)".toList) = .ok
      (⟨"Text", ⟨"(txeT".toList, "'a', size: 1".toList⟩⟩, ⟨")1 :ezis ,'a'(txeT".toList, []⟩) := by cbv
  obtain ⟨rfl, -⟩ := Prod.mk.inj (Except.ok.inj (hc.symm.trans hcall))
  have hlead : readLeadingText? ⟨"Text", ⟨"(txeT".toList, "'a', size: 1".toList⟩⟩ =
      .ok (some ("a", ⟨"'a'(txeT".toList, ", size: 1".toList⟩)) := by cbv
  obtain ⟨-, rfl⟩ := Prod.mk.inj (Option.some.inj (Except.ok.inj (ht.symm.trans hlead)))
  rfl

/-- Of a widget whose leading text runs on, no argument is kept. -/
theorem readBody_of_runs_on {descend : Call → Except Fault Widget} {call : Call} {text : String}
    {tail : Cursor} (h : readLeadingText? call = .ok (some (text, tail))) (hc : tail.next? ≠ some ',') :
    readBody descend call = .ok ⟨call.name, ∅, some text, .none⟩ := by
  rw [readBody_text h, if_neg hc]
  rfl

set_option maxRecDepth 4000 in
theorem Widget.read_adjacent :
    Widget.read .standard "Text('a' 'b', size: 1)" = .ok ⟨"Text", ∅, some "a", .none⟩ ∧
      Construction.read "Text('a' 'b', size: 1)" =
        .ok ⟨"Text", [.string "a", .string "b"], ⟨[("size", .number "1")]⟩⟩ := by
  constructor
  · cbv
  · cbv

end WidgetJsx
