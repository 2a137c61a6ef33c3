import WidgetJsx.Proofs.Markup
import WidgetJsx.Proofs.Tag

/-! Markup stands for one element only. Where a text begins with the markup of an element, the element
and the rest of the text are known from it, but for texts that the markup does not show. The proof is
by induction on the element; behind its opening tag the next characters say whether it is empty, has a
text or has children, and how far these go. -/

namespace WidgetJsx.Element

/-- What the markup of an element can tell: attributes with plain names and finite numbers, and a text
in which no tag could start. -/
structure Legible (e : Element) : Prop where
  plain : ∀ entry ∈ e.style.entries, Style.Plain entry
  text : ∀ text, e.text? = some text → '<' ∉ text.toList

/-- An element without the texts that its markup does not show: empty ones, and those beside
children. -/
def shown (e : Element) : Element :=
  { component := e.component
    style := e.style
    text? := if e.children.isEmpty then e.text?.filter (· ≠ "") else none
    children := e.children.attach.map fun ⟨c, _⟩ => c.shown }
termination_by sizeOf e
decreasing_by exact sizeOf_lt_of_mem_children ‹_›

theorem shown_eq (e : Element) : e.shown =
    ⟨e.component, e.style, (some e.shownText).filter (· ≠ ""), e.children.map shown⟩ := by
  have ht : (if e.children.isEmpty then e.text?.filter (· ≠ "") else none) =
      (some e.shownText).filter (· ≠ "") := by
    unfold shownText
    by_cases hc : e.children.isEmpty = true
    · rw [if_pos hc, if_pos hc]
      cases e.text? with
      | none => rfl
      | some text => rfl
    · rw [if_neg hc, if_neg hc]
      rfl
  rw [shown, ht]
  simp

theorem shownText_shown (e : Element) : e.shown.shownText = e.shownText := by
  by_cases hc : e.children = []
  · have hs : e.shown.children = [] := by rw [shown_eq, hc, List.map_nil]
    have ht : e.shown.shownText = ((some e.shownText).filter (· ≠ "")).getD "" := by
      rw [shownText, hs, shown_eq]
      rfl
    rw [ht, Option.filter]
    split
    · rfl
    · rename_i h
      simpa using h
  · have hs : e.shown.children ≠ [] := by
      rw [shown_eq]
      exact mt List.map_eq_nil_iff.mp hc
    rw [shownText_of_children hc, shownText_of_children hs]

/-- The texts that are left out make no difference to the markup. -/
theorem markup_shown (unit level : Nat) (e : Element) :
    e.shown.markup unit level = e.markup unit level := by
  induction e using induct generalizing level with
  | node e ih =>
    have hchildren : e.shown.children = e.children.map shown := by rw [shown_eq]
    have hopening : opening e.shown.component e.shown.style = opening e.component e.style := by
      rw [shown_eq]
    have hclosing : closing e.shown.component = closing e.component := by rw [shown_eq]
    by_cases hc : e.children = []
    · have hs : e.shown.children = [] := by rw [hchildren, hc, List.map_nil]
      by_cases ht : e.shownText = ""
      · rw [markup_empty unit level hc ht, markup_empty unit level hs (by rwa [shownText_shown]),
          hopening]
      · rw [markup_text unit level hc ht, markup_text unit level hs (by rwa [shownText_shown]),
          shownText_shown, hopening, hclosing]
    · have hs : e.shown.children ≠ [] := by
        rw [hchildren]
        exact mt List.map_eq_nil_iff.mp hc
      have hmap : e.shown.children.map (markup unit (level + 1)) =
          e.children.map (markup unit (level + 1)) := by
        rw [hchildren, List.map_map]
        exact List.map_congr_left fun c hm => ih c hm (level + 1)
      rw [markup_children unit level hc, markup_children unit level hs, hmap, hopening, hclosing]

theorem Legible.shownText {e : Element} (h : e.Legible) : '<' ∉ e.shownText.toList := by
  rcases e.shownText_cases with he | he
  · rw [he]
    exact List.not_mem_nil
  · exact h.text _ he

section

variable {e a b : Element} {unit level : Nat} {r s : List Char}

/-- What stands behind the opening of an element without children. -/
def leafEnd (e : Element) : List Char :=
  if e.shownText = "" then [' ', '/', '>', '\n']
  else '>' :: (e.shownText.toList ++ '<' :: '/' :: (e.component.name.toList ++ ['>', '\n']))

/-- What stands behind the opening of an element with children. -/
def branchEnd (unit level : Nat) (e : Element) : List Char :=
  '>' :: '\n' :: (e.children.flatMap (fun c => (c.markup unit (level + 1)).toList) ++
    ((indent unit level).toList ++ '<' :: '/' :: (e.component.name.toList ++ ['>', '\n'])))

theorem toList_markup (unit level : Nat) (e : Element) : (e.markup unit level).toList =
    (indent unit level).toList ++ ((opening e.component e.style).toList ++
      if e.children = [] then e.leafEnd else e.branchEnd unit level) := by
  by_cases hc : e.children = []
  · by_cases ht : e.shownText = ""
    · rw [if_pos hc, markup_empty unit level hc ht, leafEnd, if_pos ht]
      simp
    · rw [if_pos hc, markup_text unit level hc ht, leafEnd, if_neg ht]
      simp [closing]
  · rw [if_neg hc, markup_children unit level hc, branchEnd]
    simp [closing, String.toList_join, List.flatMap_map]

theorem eq_blank_of_mem_indent {c : Char} (h : c ∈ (indent unit level).toList) : c = ' ' := by
  rw [indent, String.toList_ofList] at h
  exact List.eq_of_mem_replicate h

theorem exists_markup_eq (unit level : Nat) (e : Element) : ∃ c t, c ≠ '/' ∧
    (e.markup unit level).toList = (indent unit level).toList ++ '<' :: c :: t := by
  cases hn : e.component.name.toList with
  | nil => exact absurd hn e.component.name_ne_nil
  | cons c t =>
    have hc : c ≠ '/' := by
      rintro rfl
      have := e.component.isAlphanum_of_mem_name '/' (by rw [hn]; exact List.mem_cons_self)
      exact absurd this (by decide)
    have hl : "<".toList = ['<'] := rfl
    rw [toList_markup, opening, String.toList_append, String.toList_append, hn, hl]
    simp only [List.cons_append, List.nil_append, List.append_assoc]
    exact ⟨c, _, hc, rfl⟩

theorem endsTag_leafEnd (e : Element) (r : List Char) : EndsTag (e.leafEnd ++ r) := by
  unfold leafEnd
  split
  · exact .inr ⟨_, rfl⟩
  · exact .inl ⟨_, rfl⟩

theorem endsTag_branchEnd (unit level : Nat) (e : Element) (r : List Char) :
    EndsTag (e.branchEnd unit level ++ r) :=
  .inl ⟨_, rfl⟩

theorem Legible.ne_of_mem {c : Char} (h : e.Legible) (hc : c ∈ e.shownText.toList) :
    (c != '<') = true := by
  apply bne_iff_ne.mpr
  rintro rfl
  exact h.shownText hc

theorem ne_head_tag {t : List Char} : ∀ c ∈ ('<' :: t).head?, (c != '<') = false := head_cons (by rfl) t

theorem leafEnd_append_inj (ha : a.Legible) (hb : b.Legible) (hc : a.component = b.component)
    (h : a.leafEnd ++ r = b.leafEnd ++ s) : a.shownText = b.shownText ∧ r = s := by
  unfold leafEnd at h
  by_cases hta : a.shownText = ""
  · by_cases htb : b.shownText = ""
    · rw [if_pos hta, if_pos htb] at h
      exact ⟨hta.trans htb.symm, List.append_cancel_left h⟩
    · rw [if_pos hta, if_neg htb] at h
      exact absurd (List.cons.inj h).1 (by decide)
  · by_cases htb : b.shownText = ""
    · rw [if_neg hta, if_pos htb] at h
      exact absurd (List.cons.inj h).1 (by decide)
    · rw [if_neg hta, if_neg htb] at h
      simp only [List.cons_append, List.append_assoc, List.cons.injEq, true_and] at h
      obtain ⟨ht, hrest⟩ := span_inj (fun c => ha.ne_of_mem) (fun c => hb.ne_of_mem) ne_head_tag
        ne_head_tag h
      rw [hc] at hrest
      simp only [List.cons.injEq, true_and, List.append_cancel_left_eq] at hrest
      exact ⟨String.toList_inj.mp ht, hrest⟩

/-- Behind a text comes a closing tag, and before the first child only white space. -/
theorem leafEnd_append_ne_branchEnd (ha : a.Legible) (hb : b.children ≠ []) :
    a.leafEnd ++ r ≠ b.branchEnd unit level ++ s := by
  intro h
  obtain ⟨child, children, hchildren⟩ := List.exists_cons_of_ne_nil hb
  obtain ⟨c, t, hc, hm⟩ := exists_markup_eq unit (level + 1) child
  unfold leafEnd branchEnd at h
  rw [hchildren, List.flatMap_cons, hm] at h
  by_cases hta : a.shownText = ""
  · rw [if_pos hta] at h
    exact absurd (List.cons.inj h).1 (by decide)
  · rw [if_neg hta] at h
    simp only [List.cons_append, List.append_assoc, List.cons.injEq, true_and] at h
    rw [← List.cons_append] at h
    have hblank : ∀ d ∈ '\n' :: (indent unit (level + 1)).toList, (d != '<') = true := by
      intro d hd
      rcases List.mem_cons.mp hd with rfl | hd
      · decide
      · rw [eq_blank_of_mem_indent hd]
        decide
    obtain ⟨-, hrest⟩ := span_inj (fun c => ha.ne_of_mem) hblank ne_head_tag ne_head_tag h
    exact hc (List.cons.inj (List.cons.inj hrest).2).1.symm

theorem closing_append_ne_markup :
    (indent unit level).toList ++ '<' :: '/' :: r ≠ (e.markup unit (level + 1)).toList ++ s := by
  intro h
  obtain ⟨c, t, hc, hm⟩ := exists_markup_eq unit (level + 1) e
  have hblank {n : Nat} : ∀ d ∈ (indent unit n).toList, (d != '<') = true := by
    intro d hd
    rw [eq_blank_of_mem_indent hd]
    decide
  rw [hm, List.append_assoc] at h
  obtain ⟨-, hrest⟩ := span_inj hblank hblank ne_head_tag ne_head_tag h
  exact hc (List.cons.inj (List.cons.inj hrest).2).1.symm

/-- The children come to an end at a closing tag. -/
theorem children_append_inj {as bs : List Element}
    (ih : ∀ a ∈ as, ∀ b ∈ bs, ∀ r s : List Char,
      (a.markup unit (level + 1)).toList ++ r = (b.markup unit (level + 1)).toList ++ s →
        a.shown = b.shown ∧ r = s)
    (h : as.flatMap (fun c => (c.markup unit (level + 1)).toList) ++
        ((indent unit level).toList ++ '<' :: '/' :: r) =
      bs.flatMap (fun c => (c.markup unit (level + 1)).toList) ++
        ((indent unit level).toList ++ '<' :: '/' :: s)) :
    as.map shown = bs.map shown ∧ r = s := by
  induction as generalizing bs with
  | nil =>
    cases bs with
    | nil =>
      have hrest := List.append_cancel_left (List.append_cancel_left h)
      exact ⟨rfl, (List.cons.inj (List.cons.inj hrest).2).2⟩
    | cons b bs =>
      rw [List.flatMap_cons, List.append_assoc] at h
      exact absurd h closing_append_ne_markup
  | cons a as iha =>
    cases bs with
    | nil =>
      rw [List.flatMap_cons, List.append_assoc] at h
      exact absurd h.symm closing_append_ne_markup
    | cons b bs =>
      rw [List.flatMap_cons, List.flatMap_cons, List.append_assoc, List.append_assoc] at h
      obtain ⟨hab, hrest⟩ := ih a List.mem_cons_self b List.mem_cons_self _ _ h
      obtain ⟨hmap, hr⟩ := iha (fun a ha b hb => ih a (List.mem_cons_of_mem _ ha) b
        (List.mem_cons_of_mem _ hb)) hrest
      exact ⟨by rw [List.map_cons, List.map_cons, hab, hmap], hr⟩

/-- A text begins with the markup of one element only, but for texts that are not shown. -/
theorem markup_append_inj (ha : ∀ e ∈ a.nodes, e.Legible) (hb : ∀ e ∈ b.nodes, e.Legible)
    (h : (a.markup unit level).toList ++ r = (b.markup unit level).toList ++ s) :
    a.shown = b.shown ∧ r = s := by
  induction a using induct generalizing b level r s with
  | node a ih =>
    have hla := ha a (mem_nodes_self a)
    have hlb := hb b (mem_nodes_self b)
    rw [toList_markup, toList_markup] at h
    simp only [List.append_assoc, List.append_cancel_left_eq] at h
    rw [shown_eq, shown_eq]
    -- behind the opening tags both go on in the same form, or they would differ soon
    by_cases hca : a.children = []
    · by_cases hcb : b.children = []
      · rw [if_pos hca, if_pos hcb] at h
        obtain ⟨hcomponent, hstyle, hend⟩ := opening_append_inj hla.plain hlb.plain
          (endsTag_leafEnd a r) (endsTag_leafEnd b s) h
        obtain ⟨htext, hrest⟩ := leafEnd_append_inj hla hlb hcomponent hend
        rw [hcomponent, hstyle, htext, hca, hcb]
        exact ⟨rfl, hrest⟩
      · rw [if_pos hca, if_neg hcb] at h
        obtain ⟨-, -, hend⟩ := opening_append_inj hla.plain hlb.plain
          (endsTag_leafEnd a r) (endsTag_branchEnd unit level b s) h
        exact absurd hend (leafEnd_append_ne_branchEnd hla hcb)
    · by_cases hcb : b.children = []
      · rw [if_neg hca, if_pos hcb] at h
        obtain ⟨-, -, hend⟩ := opening_append_inj hla.plain hlb.plain
          (endsTag_branchEnd unit level a r) (endsTag_leafEnd b s) h
        exact absurd hend.symm (leafEnd_append_ne_branchEnd hlb hca)
      · rw [if_neg hca, if_neg hcb] at h
        obtain ⟨hcomponent, hstyle, hend⟩ := opening_append_inj hla.plain hlb.plain
          (endsTag_branchEnd unit level a r) (endsTag_branchEnd unit level b s) h
        unfold branchEnd at hend
        simp only [List.cons_append, List.append_assoc, List.cons.injEq, true_and] at hend
        obtain ⟨hmap, hclosing⟩ := children_append_inj (fun c hc d hd r s he =>
          ih c hc (fun e he => ha e (mem_nodes_of_mem_children hc he))
            (fun e he => hb e (mem_nodes_of_mem_children hd he)) he) hend
        rw [hcomponent] at hclosing
        simp only [List.append_cancel_left_eq, List.cons.injEq, true_and, List.nil_append] at hclosing
        rw [hcomponent, hstyle, shownText_of_children hca, shownText_of_children hcb, hmap]
        exact ⟨rfl, hclosing⟩

/-- Elements whose markup is the same at one level are the same, but for texts that are not shown. -/
theorem shown_eq_of_markup_eq (ha : ∀ e ∈ a.nodes, e.Legible) (hb : ∀ e ∈ b.nodes, e.Legible)
    (h : a.markup unit level = b.markup unit level) : a.shown = b.shown := by
  have hl : (a.markup unit level).toList ++ [] = (b.markup unit level).toList ++ [] := by rw [h]
  exact (markup_append_inj ha hb hl).1

theorem shown_eq_of_markup_eq_blank :
    let a : Element := ⟨.text, ⟨[("fontFamily", .text "it's")]⟩, some "", []⟩
    let b : Element := ⟨.text, ⟨[("fontFamily", .text "it's")]⟩, none, []⟩
    (∀ e ∈ a.nodes, e.Legible) ∧ (∀ e ∈ b.nodes, e.Legible) ∧ a.markup 2 1 = b.markup 2 1 ∧
      a.shown = b.shown := by
  intro a b
  have hlegible : ∀ text?, (∀ text, text? = some text → '<' ∉ text.toList) →
      ∀ e ∈ nodes ⟨.text, ⟨[("fontFamily", .text "it's")]⟩, text?, []⟩, e.Legible := by
    intro text? ht e he
    rw [nodes_eq] at he
    obtain rfl := List.mem_singleton.mp he
    refine ⟨fun entry hm => ?_, ht⟩
    obtain rfl := List.mem_singleton.mp hm
    refine ⟨by decide, fun x hx => ?_⟩
    cases hx
  have ha := hlegible (some "") (by simp)
  have hb := hlegible none (by simp)
  have hm : a.markup 2 1 = b.markup 2 1 := by
    rw [markup_empty 2 1 rfl rfl, markup_empty 2 1 rfl rfl]
  exact ⟨ha, hb, hm, shown_eq_of_markup_eq ha hb hm⟩

end

end WidgetJsx.Element
