import WidgetJsx.Proofs.Body

/-! What is read does not depend on the text in front of a place, once the character before the place
is given: with more text in front, every reader finds the same, and faults lie further on. -/

namespace WidgetJsx

open Expression Text

namespace Expression

def Fault.after (earlier : List Char) (fault : Fault) : Fault :=
  ⟨fault.position.after (.behind earlier), fault.cause⟩

def Call.after (earlier : List Char) (call : Call) : Call :=
  ⟨call.name, call.arguments.after earlier⟩

def Form.after (earlier : List Char) : Form → Form
  | .widget call => .widget (call.after earlier)
  | .widgets items => .widgets (items.after earlier)
  | form => form

/-- What becomes of an outcome with more text in front, where `g` says what becomes of a result. -/
def shifted {α β : Type} (earlier : List Char) (g : α → β) : Except Fault α → Except Fault β
  | .ok a => .ok (g a)
  | .error fault => .error (fault.after earlier)

end Expression

variable {earlier : List Char} {s : Cursor}

theorem shifted_bind {α α' β β' : Type} {x : Except Fault α} {x' : Except Fault α'}
    {f : α → Except Fault β} {f' : α' → Except Fault β'} {g : α → α'} {g' : β → β'}
    (hx : x' = shifted earlier g x)
    (hf : ∀ a, x = .ok a → f' (g a) = shifted earlier g' (f a)) :
    (x' >>= f') = shifted earlier g' (x >>= f) := by
  subst hx
  cases x with
  | ok a => exact hf a rfl
  | error fault => rfl

theorem bracketed_after (h : s.Settled earlier) (cause : Cause) :
    bracketed cause (s.after earlier) =
      shifted earlier (fun (t, n) => (t.after earlier, n)) (bracketed cause s) := by
  unfold bracketed
  rw [h, Cursor.after_ahead]
  cases closing? s.previous s.ahead with
  | none => simp [shifted, Fault.after, Cursor.after_position]
  | some n => simp [shifted]

theorem listForm_after (h : s.Settled earlier) : listForm (s.after earlier) =
    shifted earlier (fun (form, n) => (form.after earlier, n)) (listForm s) :=
  shifted_bind (bracketed_after h _) fun _ _ => rfl

theorem rawForm_after (h : s.Settled earlier) : rawForm (s.after earlier) =
    shifted earlier (fun (form, n) => (form.after earlier, n)) (rawForm s) := by
  unfold rawForm
  rw [h]
  rfl

theorem typedList?_after (earlier : List Char) (s : Cursor) : typedList? (s.after earlier) =
    (typedList? s).map fun (t, n) => (t.after earlier, n) := by
  simp only [typedList?, Cursor.after_ahead, Cursor.after_forward, Cursor.after_next?]
  split
  · rfl
  · split <;> rfl

theorem compoundForm_after (h : s.Settled earlier) (lead : Nat) :
    compoundForm (s.after earlier) lead =
      shifted earlier (fun (form, n) => (form.after earlier, n)) (compoundForm s lead) := by
  simp only [compoundForm, Cursor.after_ahead, Cursor.after_forward, Cursor.after_next?,
    Cursor.after_text]
  split
  · refine shifted_bind (bracketed_after ((h.forward _).forward _) _) fun a _ => ?_
    dsimp only
    split <;> rfl
  split
  · rfl
  split
  · exact shifted_bind (listForm_after (h.forward _)) fun _ _ => rfl
  split
  · rw [typedList?_after]
    cases ht : typedList? (s.forward lead) with
    | none => exact rawForm_after h
    | some typed =>
      obtain ⟨list, gap⟩ := typed
      obtain ⟨rfl, -⟩ := typedList?_cases ht
      exact shifted_bind (listForm_after ((h.forward _).forward _)) fun _ _ => rfl
  · exact shifted_bind (rawForm_after (h.forward _)) fun _ _ => rfl

theorem readForm_after (h : s.Settled earlier) : readForm (s.after earlier) =
    shifted earlier (fun (form, n) => (form.after earlier, n)) (readForm s) := by
  unfold readForm
  rw [h, Cursor.after_ahead, Cursor.after_text]
  split
  · split
    · rfl
    · rw [Cursor.after_position]
      rfl
  split
  · rfl
  split
  · rfl
  split
  · rfl
  exact compoundForm_after h _

theorem readItem_after (h : s.Settled earlier) : readItem (s.after earlier) =
    shifted earlier (fun (call?, n) => (call?.map (Call.after earlier), n)) (readItem s) := by
  simp only [readItem, Cursor.after_ahead, Cursor.after_forward, Cursor.after_next?,
    Cursor.after_text]
  split
  · exact shifted_bind (bracketed_after ((h.forward _).forward _) _) fun _ _ => rfl
  · rw [h]
    rfl

theorem readAll_after {α : Type} {item item' : Cursor → Except Fault (α × Nat)}
    (hi : ∀ t : Cursor, t.Settled earlier → item' (t.after earlier) = shifted earlier id (item t))
    (h : s.Settled earlier) (found : List α) :
    readAll item' found (s.after earlier) = shifted earlier id (readAll item found s) := by
  have ht : ∀ s : Cursor, separated (s.after earlier) = (separated s).after earlier :=
    fun s => Cursor.after_forward _ _ _
  fun_induction readAll item found s with
  | case1 found s s' hs =>
    exact readAll_end (by rw [ht]; exact hs)
  | case2 found s s' c cs hs fault hf =>
    refine readAll_error (by rw [ht]; exact hs ▸ List.cons_ne_nil _ _) ?_
    rw [ht, hi (separated s) (h.forward _), show item (separated s) = _ from hf]
    rfl
  | case3 found s s' c cs hs b n hf ih =>
    have hi' : item' (separated (s.after earlier)) = .ok (b, n) := by
      rw [ht, hi (separated s) (h.forward _), show item (separated s) = _ from hf]
      rfl
    rw [readAll_step (by rw [ht]; exact hs ▸ List.cons_ne_nil _ _) hi', ht, Cursor.after_forward]
    exact ih ((h.forward _).forward _)

/-- A reader of calls that finds the same in a call with more text in front of it. -/
def Insensitive (earlier : List Char) (descend : Call → Except Fault Widget) : Prop :=
  ∀ call : Call, call.arguments.Settled earlier →
    descend (call.after earlier) = shifted earlier id (descend call)

section

variable {descend : Call → Except Fault Widget}

theorem Expression.Encloses.settled {inside : Cursor} {n : Nat} (h : Encloses s inside n) {c k : Char}
    {cs : List Char} (ha : s.ahead = c :: cs) (hk : closerOf? c = some k) (earlier : List Char) :
    inside.Settled earlier :=
  Cursor.settled_of_behind (by simp [(h.ahead_eq ha hk).1])

theorem Expression.CallAt.settled {call : Call} {n : Nat} (h : CallAt s call n)
    (earlier : List Char) : call.arguments.Settled earlier := by
  obtain ⟨-, -, ho, m, he, -⟩ := h
  obtain ⟨cs, hc⟩ := List.head?_eq_some_iff.mp ho
  exact he.settled hc (k := ')') rfl earlier

theorem readWidgets_after (hd : Insensitive earlier descend) (h : s.Settled earlier) :
    readWidgets descend (s.after earlier) = shifted earlier id (readWidgets descend s) := by
  refine shifted_bind (g := id) (readAll_after (fun t ht => ?_) h []) fun _ _ => rfl
  refine shifted_bind (readItem_after ht) ?_
  rintro ⟨call?, n⟩ hr
  cases call? with
  | none => rfl
  | some call =>
    obtain ⟨-, m, hc, -⟩ := callAt_of_readItem hr
    exact shifted_bind (hd call (hc.settled earlier)) fun _ _ => rfl

theorem readArgument_after (hd : Insensitive earlier descend) {form : Form} {n : Nat}
    (h : FormAt s form n) : readArgument descend (form.after earlier) =
      shifted earlier id (readArgument descend form) := by
  cases h with
  | widget hc _ => exact shifted_bind (hd _ (hc.settled earlier)) fun _ _ => rfl
  | list hn he =>
    obtain ⟨cs, hc⟩ := List.head?_eq_some_iff.mp hn
    exact shifted_bind (readWidgets_after hd (he.settled hc (k := ']') rfl _)) fun _ _ => rfl
  | typed hn ht =>
    obtain ⟨list, ht, he⟩ := ht
    obtain ⟨cs, hc⟩ := List.head?_eq_some_iff.mp (typedList?_cases ht).2
    exact shifted_bind (readWidgets_after hd (he.settled hc (k := ']') rfl _)) fun _ _ => rfl
  | string | number | boolean | construction | reference | raw => rfl

theorem readEntry_after (hd : Insensitive earlier descend) (h : s.Settled earlier) :
    readEntry descend (s.after earlier) = shifted earlier id (readEntry descend s) := by
  have hl : entryLead (s.after earlier) = entryLead s := rfl
  rw [readEntry_eq, readEntry_eq, hl, Cursor.after_forward]
  refine shifted_bind (readForm_after (h.forward _)) ?_
  rintro ⟨form, n⟩ hf
  exact shifted_bind (readArgument_after hd (formAt_of_readForm hf)) fun _ _ => rfl

theorem readEntries_after (hd : Insensitive earlier descend) (h : s.Settled earlier) :
    readEntries descend (s.after earlier) = shifted earlier id (readEntries descend s) :=
  readAll_after (fun _ ht => readEntry_after hd ht) h []

theorem readLeadingText?_after {call : Call} (h : call.arguments.Settled earlier) :
    readLeadingText? (call.after earlier) = shifted earlier
      (Option.map fun (text, rest) => (text, rest.after earlier)) (readLeadingText? call) := by
  have hs := h.forward (triviaLength call.arguments.ahead)
  simp only [readLeadingText?, Call.after, Cursor.after_ahead, Cursor.after_forward]
  rw [hs]
  split
  · split
    · rfl
    · rw [Cursor.after_position]
      rfl
  · rfl

theorem readBody_after (hd : Insensitive earlier descend) :
    Insensitive earlier (readBody descend) := by
  intro call h
  have hl := readLeadingText?_after h
  cases hc : readLeadingText? call with
  | error fault =>
    rw [hc] at hl
    rw [readBody_error hl, readBody_error hc]
    rfl
  | ok leading? =>
    rw [hc] at hl
    cases leading? with
    | none =>
      rw [readBody_split hl, readBody_split hc]
      exact shifted_bind (readEntries_after hd h) fun _ _ => rfl
    | some leading =>
      obtain ⟨text, rest⟩ := leading
      rw [readBody_text hl, readBody_text hc]
      refine shifted_bind (g := id) ?_ fun _ _ => rfl
      obtain ⟨-, k, rfl⟩ := readLeadingText?_cases hc
      rw [Cursor.after_next?]
      split
      · rw [Cursor.after_forward]
        exact readEntries_after hd ((h.forward k).forward 1)
      · rfl

end

theorem readWidget_after (earlier : List Char) (allowed left : Nat) :
    Insensitive earlier (readWidget allowed left) := by
  induction left with
  | zero =>
    intro call _
    simp only [readWidget, shifted, Fault.after, ← Cursor.after_position]
    rfl
  | succ left ih => exact readBody_after ih

end WidgetJsx
