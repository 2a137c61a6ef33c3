import WidgetJsx.Proofs.Body

/-! What faults speak of. A text that is not read is at fault itself, and a fault then names nothing of it
but a dotted path, or one of the bounds has stopped the reading. -/

namespace WidgetJsx

open Expression Text

/-- Every fault that reading can end in is of a kind. -/
def Faults {α : Type} (kind : Fault → Prop) (x : Except Fault α) : Prop :=
  ∀ fault, x = .error fault → kind fault

section

variable {α β : Type} {kind : Fault → Prop}

theorem faults_ok (a : α) : Faults kind (.ok a : Except Fault α) := by
  intro fault h
  cases h

theorem faults_error {fault : Fault} (h : kind fault) : Faults kind (.error fault : Except Fault α) := by
  rintro _ ⟨⟩
  exact h

theorem Faults.bind {x : Except Fault α} {f : α → Except Fault β} (hx : Faults kind x)
    (hf : ∀ a, x = .ok a → Faults kind (f a)) : Faults kind (x >>= f) := by
  cases x with
  | ok a => exact hf a rfl
  | error fault => exact faults_error (hx fault rfl)

theorem faults_readAll {item : Cursor → Except Fault (α × Nat)} (hi : ∀ t, Faults kind (item t))
    (found : List α) (s : Cursor) : Faults kind (readAll item found s) := by
  fun_induction readAll item found s with
  | case1 => exact faults_ok _
  | case2 found s s' c cs hs fault hf => exact faults_error (hi _ fault hf)
  | case3 found s s' c cs hs a n hf ih => exact ih

end

/-- The text is at fault, and what is named of it is a dotted path. -/
def Expression.Cause.OfText : Cause → Prop
  | .openingExpected name | .unclosedCall name | .notWidget name => ∃ names, PathOf names name.toList
  | .callExpected | .unclosedList | .unclosedString | .trailingText => True
  | .tooLong _ _ | .tooDeep _ => False

/-- A reader that ends in faults of the text only. -/
def FaultsOfText {α : Type} (x : Except Fault α) : Prop := Faults (·.cause.OfText) x

section

variable {s : Cursor}

theorem exists_pathOf_text (h : 0 < pathLength s.ahead) :
    ∃ names, PathOf names (s.text (pathLength s.ahead)).toList := by
  obtain ⟨names, u, rest, ha, hl, hpath, -⟩ := path_split h
  refine ⟨names, ?_⟩
  rwa [Cursor.text, hl, ha, List.take_left, String.toList_ofList]

theorem faultsOfText_bracketed (cause : Cause) (h : cause.OfText) (s : Cursor) :
    FaultsOfText (bracketed cause s) := by
  unfold bracketed
  split
  · exact faults_ok _
  · exact faults_error h

theorem faultsOfText_listForm (s : Cursor) : FaultsOfText (listForm s) :=
  (faultsOfText_bracketed .unclosedList trivial s).bind fun _ _ => faults_ok _

theorem faultsOfText_compoundForm (s : Cursor) (lead : Nat) : FaultsOfText (compoundForm s lead) := by
  unfold compoundForm
  dsimp only
  split
  · rename_i hc
    exact (faultsOfText_bracketed (.unclosedCall _) (exists_pathOf_text hc.1) _).bind
      fun _ _ => faults_ok _
  split
  · exact faults_ok _
  split
  · exact (faultsOfText_listForm _).bind fun _ _ => faults_ok _
  split
  · split
    · exact (faultsOfText_listForm _).bind fun _ _ => faults_ok _
    · exact faults_ok _
  · exact faults_ok _

theorem faultsOfText_readForm (s : Cursor) : FaultsOfText (readForm s) := by
  unfold readForm
  split
  · split
    · exact faults_ok _
    · exact faults_error trivial
  split
  · exact faults_ok _
  split
  · exact faults_ok _
  split
  · exact faults_ok _
  · exact faultsOfText_compoundForm s _

theorem faultsOfText_readItem (s : Cursor) : FaultsOfText (readItem s) := by
  unfold readItem
  dsimp only
  split
  · rename_i hc
    have hname := exists_pathOf_text (pathLength_pos_of_isWidgetName hc.2)
    exact (faultsOfText_bracketed (.unclosedCall _) hname _).bind fun _ _ => faults_ok _
  · exact faults_ok _

theorem faultsOfText_readLeadingText? (call : Call) : FaultsOfText (readLeadingText? call) := by
  unfold readLeadingText?
  dsimp only
  split
  · split
    · exact faults_ok _
    · exact faults_error trivial
  · exact faults_ok _

theorem faultsOfText_readCall (s : Cursor) : FaultsOfText (readCall s) := by
  rw [readCall_eq]
  split
  · exact faults_error trivial
  rename_i hpath
  have hname := exists_pathOf_text (Nat.pos_of_ne_zero hpath)
  split
  · exact faults_error hname
  · exact (faultsOfText_bracketed (.unclosedCall _) hname _).bind fun _ _ => faults_ok _

theorem faultsOfText_expectEnd (s : Cursor) : FaultsOfText (expectEnd s) := by
  unfold expectEnd
  dsimp only
  split
  · exact faults_ok _
  · exact faults_error trivial

end

section

variable {kind : Fault → Prop} {descend : Call → Except Fault Widget}

theorem faults_readWidgets (ht : ∀ fault : Fault, fault.cause.OfText → kind fault)
    (hd : ∀ call, Faults kind (descend call)) (items : Cursor) :
    Faults kind (readWidgets descend items) := by
  refine (faults_readAll (fun t => ?_) [] items).bind fun _ _ => faults_ok _
  refine Faults.bind (fun fault h => ht fault (faultsOfText_readItem t fault h)) ?_
  rintro ⟨call?, n⟩ -
  cases call? with
  | none => exact faults_ok _
  | some call => exact (hd call).bind fun _ _ => faults_ok _

theorem faults_readArgument (ht : ∀ fault : Fault, fault.cause.OfText → kind fault)
    (hd : ∀ call, Faults kind (descend call)) (form : Form) :
    Faults kind (readArgument descend form) := by
  cases form with
  | widget call => exact (hd call).bind fun _ _ => faults_ok _
  | widgets items => exact (faults_readWidgets ht hd items).bind fun _ _ => faults_ok _
  | string | number | boolean | reference | construction | raw => exact faults_ok _

theorem faults_readEntries (ht : ∀ fault : Fault, fault.cause.OfText → kind fault)
    (hd : ∀ call, Faults kind (descend call)) (s : Cursor) : Faults kind (readEntries descend s) := by
  refine faults_readAll (fun t => ?_) [] s
  rw [readEntry_eq]
  refine Faults.bind (fun fault h => ht fault (faultsOfText_readForm _ fault h)) fun found _ => ?_
  exact (faults_readArgument ht hd found.1).bind fun _ _ => faults_ok _

theorem faults_readBody (ht : ∀ fault : Fault, fault.cause.OfText → kind fault)
    (hd : ∀ call, Faults kind (descend call)) (call : Call) : Faults kind (readBody descend call) := by
  cases hl : readLeadingText? call with
  | error fault =>
    rw [readBody_error hl]
    exact faults_error (ht fault (faultsOfText_readLeadingText? call fault hl))
  | ok leading? =>
    cases leading? with
    | none =>
      rw [readBody_split hl]
      exact (faults_readEntries ht hd _).bind fun _ _ => faults_ok _
    | some leading =>
      rw [readBody_text hl]
      refine Faults.bind ?_ fun _ _ => faults_ok _
      split
      · exact faults_readEntries ht hd _
      · exact faults_ok _

end

theorem faults_readWidget (allowed left : Nat) (call : Call) :
    Faults (fun fault => fault.cause.OfText ∨ fault.cause = .tooDeep allowed)
      (readWidget allowed left call) := by
  induction left generalizing call with
  | zero => exact faults_error (.inr rfl)
  | succ left ih => exact faults_readBody (fun _ => .inl) ih call

/-- A source is not read because of its text, or it is nested deeper or is longer than allowed. -/
theorem Widget.cause_of_read {limits : Limits} {source : String} {fault : Fault}
    (h : Widget.read limits source = .error fault) : fault.cause.OfText ∨
      fault.cause = .tooDeep limits.depth ∨ fault.cause = .tooLong source.utf8ByteSize limits.bytes := by
  by_cases hb : source.utf8ByteSize ≤ limits.bytes
  · suffices hf : Faults (fun fault => fault.cause.OfText ∨ fault.cause = .tooDeep limits.depth)
        (Widget.read limits source) from (hf fault h).imp_right .inl
    rw [read_bind hb]
    refine Faults.bind (fun fault h => .inl (faultsOfText_readCall _ fault h)) fun (call, rest) hc => ?_
    dsimp only
    split
    · obtain ⟨n, hat, -⟩ := readCall_eq_ok_iff.mp hc
      obtain ⟨names, path, -, -, -, hpath, -, hname, -⟩ := hat.text_eq
      exact faults_error (.inl ⟨names, by rwa [hname, String.toList_ofList]⟩)
    · refine (faults_readWidget _ _ call).bind fun w _ => Faults.bind ?_ fun _ _ => faults_ok w
      exact fun fault h => .inl (faultsOfText_expectEnd rest fault h)
  · have hopen : limits.open source =
        .error ⟨.start, .tooLong source.utf8ByteSize limits.bytes⟩ := if_pos (Nat.lt_of_not_le hb)
    rw [Widget.read, hopen] at h
    cases h
    exact .inr (.inr rfl)

end WidgetJsx
