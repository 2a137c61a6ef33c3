import WidgetJsx.Proofs.Attribute
import WidgetJsx.Proofs.Margin
import WidgetJsx.Proofs.NumberText
import WidgetJsx.Proofs.Quoted

/-! The opening tag of an element tells its component and its style. It is known from the tag alone
where each name, number and quoted text in it ends, so that nothing depends on what follows. -/

namespace WidgetJsx

open Expression

section

variable {r s : List Char}

theorem head_cons {P : Char → Prop} {c : Char} (h : P c) (t : List Char) :
    ∀ d ∈ (c :: t).head?, P d := by
  intro d hd
  obtain rfl : c = d := Option.some.inj hd
  exact h

/-- Two texts that start the same, each up to the first character of another kind. -/
theorem span_inj {p : Char → Bool} {u v : List Char} (hu : ∀ c ∈ u, p c = true)
    (hv : ∀ c ∈ v, p c = true) (hr : ∀ c ∈ r.head?, p c = false) (hs : ∀ c ∈ s.head?, p c = false)
    (h : u ++ r = v ++ s) : u = v ∧ r = s := by
  have he : u = v := by
    rw [← takeWhile_append_eq hu hr, h, takeWhile_append_eq hv hs]
  subst he
  exact ⟨rfl, List.append_cancel_left h⟩

namespace Style

/-- What stands behind a value: a comma, or the braces that close the style. -/
def EndsValue (rest : List Char) : Prop := ∃ c t, rest = c :: t ∧ (c = ',' ∨ c = '\x7d')

theorem EndsValue.breaks (h : EndsValue r) : Breaks r := by
  obtain ⟨c, t, rfl, hc⟩ := h
  have hseparator : c = ',' ∨ isCloser c = true := by
    refine hc.imp_right ?_
    rintro rfl
    rfl
  exact breaks_of_separator (head_cons hseparator t)

def isNumberChar (c : Char) : Bool := c.isDigit || c == '-' || c == '.'

theorem isNumberChar_of_mem {x : Binary64} (hx : x.isFinite = true) :
    ∀ c ∈ (numberText x).toList, isNumberChar c = true := by
  intro c hc
  rcases mem_numberText hx hc with h | rfl | rfl
  · simp [isNumberChar, h]
  · decide
  · decide

theorem EndsValue.not_isNumberChar (h : EndsValue r) : ∀ c ∈ r.head?, isNumberChar c = false := by
  obtain ⟨c, t, rfl, hc⟩ := h
  apply head_cons
  rcases hc with rfl | rfl
  · rfl
  · rfl

theorem numberText_append_ne {x : Binary64} (hx : x.isFinite = true) (hr : EndsValue r) (t : String) :
    (numberText x).toList ++ r ≠ (quoted t).toList ++ s := by
  intro h
  have hq : isNumberChar '\'' = false := by decide
  have hhead : ((numberText x).toList ++ r).head? = some '\'' := by
    rw [h, toList_quoted]
    rfl
  cases hn : (numberText x).toList with
  | nil =>
    -- what ends the value would be the quote
    rw [hn] at hhead
    obtain ⟨c, u, rfl, hc⟩ := hr
    obtain rfl : c = '\'' := Option.some.inj hhead
    exact absurd hc (by decide)
  | cons c u =>
    rw [hn] at hhead
    obtain rfl : c = '\'' := Option.some.inj hhead
    have := isNumberChar_of_mem hx '\'' (by rw [hn]; exact List.mem_cons_self)
    rw [hq] at this
    cases this

/-- Values are finite where they are numbers. -/
def Value.Finite (value : Value) : Prop := ∀ x, value = .number x → x.isFinite = true

theorem value_append_inj {a b : Value} (ha : a.Finite) (hb : b.Finite) (hr : EndsValue r)
    (hs : EndsValue s) (h : a.write.toList ++ r = b.write.toList ++ s) : a = b ∧ r = s := by
  cases a with
  | number x =>
    have hx := ha x rfl
    cases b with
    | number y =>
      have hy := hb y rfl
      obtain ⟨ht, he⟩ := span_inj (isNumberChar_of_mem hx) (isNumberChar_of_mem hy)
        hr.not_isNumberChar hs.not_isNumberChar h
      rw [numberText_inj hx hy (String.toList_inj.mp ht)]
      exact ⟨rfl, he⟩
    | text t => exact absurd h (numberText_append_ne hx hr t)
  | text t =>
    cases b with
    | number y => exact absurd h.symm (numberText_append_ne (hb y rfl) hs t)
    | text u =>
      obtain ⟨rfl, he⟩ := quoted_append_inj hr.breaks hs.breaks h
      exact ⟨rfl, he⟩

/-- An attribute of which its text tells all. -/
def Plain (entry : String × Value) : Prop := IsAttribute entry.1 ∧ entry.2.Finite

def entryText (entry : String × Value) : List Char :=
  entry.1.toList ++ ':' :: ' ' :: entry.2.write.toList

/-- The attributes behind the first one, and the braces that close the style. -/
def tailText : List (String × Value) → List Char
  | [] => ['\x7d', '\x7d']
  | entry :: entries => ',' :: ' ' :: (entryText entry ++ tailText entries)

theorem endsValue_tailText (entries : List (String × Value)) (rest : List Char) :
    EndsValue (tailText entries ++ rest) := by
  cases entries with
  | nil => exact ⟨_, _, rfl, .inr rfl⟩
  | cons entry entries => exact ⟨_, _, rfl, .inl rfl⟩

theorem entry_append_inj {a b : String × Value} (ha : Plain a) (hb : Plain b) (hr : EndsValue r)
    (hs : EndsValue s) (h : entryText a ++ r = entryText b ++ s) : a = b ∧ r = s := by
  have hcolon (t : List Char) : ∀ c ∈ (':' :: t).head?, c.isAlphanum = false := head_cons (by rfl) t
  simp only [entryText, List.append_assoc, List.cons_append] at h
  obtain ⟨hkey, hvalue⟩ := span_inj (isAlphanum_of_mem ha.1) (isAlphanum_of_mem hb.1)
    (hcolon _) (hcolon _) h
  simp only [List.cons.injEq, true_and] at hvalue
  obtain ⟨he, hrest⟩ := value_append_inj ha.2 hb.2 hr hs hvalue
  exact ⟨Prod.ext (String.toList_inj.mp hkey) he, hrest⟩

theorem tailText_append_inj {as bs : List (String × Value)} (ha : ∀ a ∈ as, Plain a)
    (hb : ∀ b ∈ bs, Plain b) (h : tailText as ++ r = tailText bs ++ s) : as = bs ∧ r = s := by
  induction as generalizing bs with
  | nil =>
    cases bs with
    | nil => exact ⟨rfl, List.append_cancel_left h⟩
    | cons b bs => exact absurd (List.cons.inj h).1 (by decide)
  | cons a as ih =>
    cases bs with
    | nil => exact absurd (List.cons.inj h).1 (by decide)
    | cons b bs =>
      simp only [tailText, List.cons_append, List.append_assoc, List.cons.injEq, true_and] at h
      obtain ⟨rfl, ht⟩ := entry_append_inj (ha a List.mem_cons_self) (hb b List.mem_cons_self)
        (endsValue_tailText as r) (endsValue_tailText bs s) h
      obtain ⟨rfl, hrest⟩ := ih (fun a hm => ha a (List.mem_cons_of_mem _ hm))
        (fun b hm => hb b (List.mem_cons_of_mem _ hm)) ht
      exact ⟨rfl, hrest⟩

theorem intercalate_entries (entry : String × Value) (entries : List (String × Value)) :
    [',', ' '].intercalate ((entry :: entries).map entryText) ++ ['\x7d', '\x7d'] =
      entryText entry ++ tailText entries := by
  induction entries generalizing entry with
  | nil => simp [List.intercalate, tailText]
  | cons next entries ih =>
    rw [tailText, ← ih next]
    simp [List.intercalate]

end Style

namespace Component

theorem name_inj {a b : Component} (h : a.name = b.name) : a = b := by
  cases a <;> cases b <;> first | rfl | exact absurd h (by decide)

theorem isAlphanum_of_mem_name (a : Component) : ∀ c ∈ a.name.toList, c.isAlphanum = true := by
  apply Style.isAlphanum_of_mem
  cases a <;> rfl

theorem name_ne_nil (a : Component) : a.name.toList ≠ [] := by
  cases a <;> decide

end Component

namespace Element

theorem toList_styleText (entry : String × Style.Value) (entries : List (String × Style.Value)) :
    (styleText ⟨entry :: entries⟩).toList =
      " style=\x7b\x7b".toList ++ (Style.entryText entry ++ Style.tailText entries) := by
  have hmap : ((entry :: entries).map fun e => e.1 ++ ": " ++ e.2.write).map String.toList =
      (entry :: entries).map Style.entryText := by
    rw [List.map_map]
    apply List.map_congr_left
    intro e _
    simp [Style.entryText]
  have hs : styleText ⟨entry :: entries⟩ = " style=\x7b\x7b" ++ String.intercalate ", "
      ((entry :: entries).map fun e => e.1 ++ ": " ++ e.2.write) ++ "\x7d\x7d" := rfl
  rw [hs, String.toList_append, String.toList_append, String.toList_intercalate, hmap,
    ← Style.intercalate_entries, List.append_assoc]
  rfl

/-- What stands behind the name and the style of a tag. -/
def EndsTag (rest : List Char) : Prop := (∃ t, rest = '>' :: t) ∨ ∃ t, rest = ' ' :: '/' :: t

theorem EndsTag.not_isAlphanum (h : EndsTag r) : ∀ c ∈ r.head?, c.isAlphanum = false := by
  rcases h with ⟨t, rfl⟩ | ⟨t, rfl⟩
  · exact head_cons (by rfl) t
  · exact head_cons (by rfl) _

theorem styleText_append_ne (entry : String × Style.Value) (entries : List (String × Style.Value))
    (hs : EndsTag s) : (styleText ⟨entry :: entries⟩).toList ++ r ≠ s := by
  intro h
  rw [toList_styleText] at h
  rcases hs with ⟨t, rfl⟩ | ⟨t, rfl⟩
  · exact absurd (List.cons.inj h).1 (by decide)
  · exact absurd (List.cons.inj (List.cons.inj h).2).1 (by decide)

theorem styleText_append_inj {a b : Style} (ha : ∀ e ∈ a.entries, Style.Plain e)
    (hb : ∀ e ∈ b.entries, Style.Plain e) (hr : EndsTag r) (hs : EndsTag s)
    (h : (styleText a).toList ++ r = (styleText b).toList ++ s) : a = b ∧ r = s := by
  obtain ⟨as⟩ := a
  obtain ⟨bs⟩ := b
  cases as with
  | nil =>
    cases bs with
    | nil => exact ⟨rfl, h⟩
    | cons e es => exact absurd h.symm (styleText_append_ne e es hr)
  | cons e es =>
    cases bs with
    | nil => exact absurd h (styleText_append_ne e es hs)
    | cons f fs =>
      rw [toList_styleText, toList_styleText] at h
      simp only [List.append_assoc, List.append_cancel_left_eq] at h
      obtain ⟨rfl, ht⟩ := Style.entry_append_inj (ha e List.mem_cons_self) (hb f List.mem_cons_self)
        (Style.endsValue_tailText es r) (Style.endsValue_tailText fs s) h
      obtain ⟨rfl, hrest⟩ := Style.tailText_append_inj (fun a hm => ha a (List.mem_cons_of_mem _ hm))
        (fun b hm => hb b (List.mem_cons_of_mem _ hm)) ht
      exact ⟨rfl, hrest⟩

theorem styleText_append_not_isAlphanum (style : Style) (hr : EndsTag r) :
    ∀ c ∈ ((styleText style).toList ++ r).head?, c.isAlphanum = false := by
  obtain ⟨entries⟩ := style
  cases entries with
  | nil => exact hr.not_isAlphanum
  | cons e es =>
    rw [toList_styleText]
    exact head_cons (by rfl) _

theorem opening_append_inj {a b : Component} {p q : Style} (hp : ∀ e ∈ p.entries, Style.Plain e)
    (hq : ∀ e ∈ q.entries, Style.Plain e) (hr : EndsTag r) (hs : EndsTag s)
    (h : (opening a p).toList ++ r = (opening b q).toList ++ s) : a = b ∧ p = q ∧ r = s := by
  simp only [opening, String.toList_append, List.append_assoc, List.append_cancel_left_eq] at h
  obtain ⟨hname, hstyle⟩ := span_inj a.isAlphanum_of_mem_name b.isAlphanum_of_mem_name
    (styleText_append_not_isAlphanum p hr) (styleText_append_not_isAlphanum q hs) h
  obtain ⟨rfl, hrest⟩ := styleText_append_inj hp hq hr hs hstyle
  exact ⟨Component.name_inj (String.toList_inj.mp hname), rfl, hrest⟩

end Element

end

end WidgetJsx
