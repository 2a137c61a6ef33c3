import WidgetJsx.Proofs.Agreement
import WidgetJsx.Proofs.KeptText

/-! Every text that is kept of a source is an excerpt of it, what is left when some of its characters are
dropped: literals lose their quotes and backslashes, expressions the white space around them. -/

namespace WidgetJsx

open Expression Text

theorem Text.trim_sublist (cs : List Char) : (trim cs).Sublist cs :=
  (prefix_trimEnd _).sublist.trans (List.dropWhile_sublist isBlank)

namespace Expression

theorem unescapeFrom_sublist (before cs : List Char) :
    (unescapeFrom before cs).Sublist (before.reverse ++ cs) := by
  fun_induction unescapeFrom before cs with
  | case1 before => simp
  | case2 before c cs ih =>
    -- the backslash is dropped, and the character behind it is kept
    rw [List.reverse_cons, List.append_assoc, List.singleton_append] at ih
    exact ih.trans ((List.sublist_cons_self '\\' (c :: cs)).append_left _)
  | case3 before c cs _ ih => simpa using ih

theorem stringText_sublist (n : Nat) (cs : List Char) : (stringText n cs).toList.Sublist cs := by
  have hcontent : ∀ k m : Nat, ((cs.drop k).take m).Sublist cs := fun k m =>
    (List.take_sublist m _).trans (List.drop_sublist k cs)
  simp only [stringText]
  rw [String.toList_ofList]
  split
  · exact hcontent _ _
  · exact (unescapeFrom_sublist [] _).trans (hcontent _ _)

end Expression

theorem Text.Cursor.text_sublist (s : Cursor) (n : Nat) : (s.text n).toList.Sublist s.ahead := by
  rw [Cursor.text, String.toList_ofList]
  exact List.take_sublist _ _

theorem Text.Cursor.forward_sublist (s : Cursor) (k : Nat) : (s.forward k).ahead.Sublist s.ahead :=
  (s.forward_suffix k).sublist

/-- The text of the argument, if it has one, is an excerpt of the source. -/
def Argument.ExcerptOf (source : List Char) (a : Argument Widget) : Prop :=
  ∀ text ∈ a.text?, text.toList.Sublist source

theorem Argument.ExcerptOf.mono {source source' : List Char} {a : Argument Widget}
    (h : a.ExcerptOf source) (hs : source.Sublist source') : a.ExcerptOf source' :=
  fun text ht => (h text ht).trans hs

section

variable {descend : Call → Except Fault Widget} {s : Cursor}

theorem excerptOf_readArgument {form : Form} {n : Nat} {a : Argument Widget}
    (hf : readForm s = .ok (form, n)) (h : readArgument descend form = .ok a) :
    a.ExcerptOf s.ahead := by
  intro text ht
  cases formAt_of_readForm hf with
  | string _ _ =>
    cases h
    obtain rfl := Option.some.inj ht
    exact stringText_sublist _ _
  | number _ =>
    cases h
    obtain rfl := Option.some.inj ht
    exact s.text_sublist _
  | boolean value hw =>
    cases h
    obtain rfl : toString value = text := by
      cases value <;> exact Option.some.inj ht
    obtain ⟨rest, ha, -⟩ := startsWithWord_iff.mp hw
    rw [ha]
    exact List.sublist_append_left _ _
  | reference _ =>
    cases h
    obtain rfl := Option.some.inj ht
    exact (Cursor.text_sublist _ _).trans (s.forward_sublist _)
  | construction _ _ =>
    cases h
    obtain rfl := Option.some.inj ht
    exact (Cursor.text_sublist _ _).trans (s.forward_sublist _)
  | raw _ =>
    cases h
    obtain rfl := Option.some.inj ht
    rw [String.toList_ofList]
    exact (trim_sublist _).trans ((List.take_sublist _ _).trans (s.forward_sublist _))
  | widget | list | typed =>
    obtain ⟨_, -, h⟩ := exists_of_bind_eq_ok h
    cases h
    cases ht

theorem excerptOf_of_mem_readEntries {entries : List Entry} (h : readEntries descend s = .ok entries)
    {entry : Entry} (he : entry ∈ entries) : entry.value.ExcerptOf s.ahead := by
  obtain ⟨-, k, form, n, hf, ha⟩ := exists_of_mem_readEntries h he
  exact (excerptOf_readArgument hf ha).mono (s.forward_sublist k)

theorem excerptOf_of_mem_named {entries : List Entry} (h : readEntries descend s = .ok entries)
    {entry : String × Argument Widget} (he : entry ∈ (Entry.named entries).entries) :
    entry.2.ExcerptOf s.ahead :=
  excerptOf_of_mem_readEntries h (mem_named he)

/-- The texts that a widget shows, and those of its arguments. Widgets that it holds are not looked at. -/
structure Widget.ExcerptsOf (source : List Char) (w : Widget) : Prop where
  text : ∀ text ∈ w.text?, text.toList.Sublist source
  arguments : ∀ entry ∈ w.arguments.entries, entry.2.ExcerptOf source

theorem Widget.ExcerptsOf.mono {source source' : List Char} {w : Widget} (h : w.ExcerptsOf source)
    (hs : source.Sublist source') : w.ExcerptsOf source' :=
  ⟨fun text ht => (h.text text ht).trans hs, fun entry he => (h.arguments entry he).mono hs⟩

theorem excerptsOf_readBody {call : Call} {w : Widget} (h : readBody descend call = .ok w) :
    w.ExcerptsOf call.arguments.ahead := by
  obtain ⟨leading?, hl, -⟩ := exists_of_bind_eq_ok h
  cases leading? with
  | none =>
    rw [readBody_split hl] at h
    obtain ⟨entries, he, h⟩ := exists_of_bind_eq_ok h
    cases h
    refine ⟨fun text ht => absurd ht.symm (Option.some_ne_none text), fun entry hm => ?_⟩
    exact excerptOf_of_mem_named he (Content.mem_split hm)
  | some leading =>
    obtain ⟨text, tail⟩ := leading
    rw [readBody_text hl] at h
    obtain ⟨entries, he, h⟩ := exists_of_bind_eq_ok h
    cases h
    obtain ⟨s, n, rfl, -, hs, -, rfl⟩ := exists_string_of_readLeadingText? hl
    refine ⟨fun shown ht => ?_, fun entry hm => ?_⟩
    · have hform : readArgument descend (.string text) = .ok (.string text) := rfl
      exact ((excerptOf_readArgument hs hform).mono (Cursor.forward_sublist _ _)) shown ht
    · split at he
      · rw [Cursor.forward_forward, Cursor.forward_forward, Cursor.forward_forward] at he
        exact (excerptOf_of_mem_named he hm).mono (Cursor.forward_sublist _ _)
      · cases he
        exact absurd hm List.not_mem_nil

end

/-- All the texts in a tree are excerpts of the source, in the widgets that hold others and in those that
are held. -/
theorem Widget.read_excerpts {limits : Limits} {source : String} {root w : Widget}
    (h : Widget.read limits source = .ok root) (hw : Within w root) : w.ExcerptsOf source.toList := by
  obtain ⟨part, hi, hr⟩ := read_part h hw
  obtain ⟨-, call, rest, hc, -, hr, -⟩ := read_eq_ok_iff.mp hr
  obtain ⟨n, -, hr⟩ := readWidget_eq_ok hr
  exact (excerptsOf_readBody hr).mono ((arguments_infix_of_readCall hc).sublist.trans hi.sublist)

/-- The same holds of all the arguments of a construction. -/
theorem Construction.read_excerpts {source : String} {c : Construction}
    (h : Construction.read source = .ok c) :
    (∀ a ∈ c.positional, a.ExcerptOf source.toList) ∧
      ∀ entry ∈ c.named.entries, entry.2.ExcerptOf source.toList := by
  obtain ⟨-, call, rest, entries, hc, hr, -, rfl⟩ := read_eq_ok_iff.mp h
  have hentry : ∀ entry ∈ entries, entry.value.ExcerptOf source.toList := fun entry hm =>
    (excerptOf_of_mem_readEntries hr hm).mono (arguments_infix_of_readCall hc).sublist
  refine ⟨fun a ha => ?_, fun entry hm => hentry _ (mem_named hm)⟩
  obtain ⟨entry, hm, he⟩ := List.mem_filterMap.mp ha
  split at he
  · exact Option.some.inj he ▸ hentry entry hm
  · cases he

end WidgetJsx
