import Mathlib
import WidgetJsx.Proofs.Margin
import WidgetJsx.Proofs.Shift

/-! Every widget of a tree is what its own part of the source text reads as. The part is cut out at the
brackets of the call, so neither what stands around it nor how deep it stands has a say in it. -/

namespace WidgetJsx

open Expression Text

/-- What the first reader finds, the second finds too. -/
def Refines {α : Type} (x y : Except Fault α) : Prop := ∀ a, x = .ok a → y = .ok a

theorem Refines.bind {α β : Type} {x y : Except Fault α} {f g : α → Except Fault β}
    (h : Refines x y) (hf : ∀ a, Refines (f a) (g a)) : Refines (x >>= f) (y >>= g) := by
  intro b hb
  obtain ⟨a, hx, hb⟩ := exists_of_bind_eq_ok hb
  rw [h a hx]
  exact hf a b hb

theorem Refines.refl {α : Type} (x : Except Fault α) : Refines x x := fun _ => id

theorem Refines.readAll {α : Type} {item item' : Cursor → Except Fault (α × Nat)}
    (h : ∀ s, Refines (item s) (item' s)) (found : List α) (s : Cursor) :
    Refines (readAll item found s) (Expression.readAll item' found s) := by
  fun_induction Expression.readAll item found s with
  | case1 found s s' hs => exact fun _ ha => (readAll_end hs).trans ha
  | case2 found s s' c cs hs fault hf =>
    intro as ha
    cases ha
  | case3 found s s' c cs hs b n hf ih =>
    intro as ha
    exact (readAll_step (hs ▸ List.cons_ne_nil c cs) (h _ _ hf)).trans (ih as ha)

section

variable {descend descend' : Call → Except Fault Widget}

theorem Refines.readWidgets (h : ∀ call, Refines (descend call) (descend' call)) (items : Cursor) :
    Refines (readWidgets descend items) (WidgetJsx.readWidgets descend' items) := by
  refine Refines.bind (Refines.readAll (fun s => ?_) [] items) fun _ => .refl _
  refine Refines.bind (.refl _) ?_
  rintro ⟨call?, n⟩
  cases call? with
  | none => exact .refl _
  | some call => exact (h call).bind fun _ => .refl _

theorem Refines.readArgument (h : ∀ call, Refines (descend call) (descend' call)) (form : Form) :
    Refines (readArgument descend form) (WidgetJsx.readArgument descend' form) := by
  cases form with
  | widget call => exact (h call).bind fun _ => .refl _
  | widgets items => exact (Refines.readWidgets h items).bind fun _ => .refl _
  | string | number | boolean | construction | reference | raw => exact .refl _

theorem Refines.readEntries (h : ∀ call, Refines (descend call) (descend' call)) (s : Cursor) :
    Refines (readEntries descend s) (WidgetJsx.readEntries descend' s) := by
  refine Refines.readAll (fun s => ?_) [] s
  rw [readEntry_eq, readEntry_eq]
  refine Refines.bind (.refl _) ?_
  rintro ⟨form, n⟩
  exact (Refines.readArgument h form).bind fun _ => .refl _

theorem Refines.readBody (h : ∀ call, Refines (descend call) (descend' call)) (call : Call) :
    Refines (readBody descend call) (WidgetJsx.readBody descend' call) := by
  cases hl : readLeadingText? call with
  | error fault =>
    rw [readBody_error hl, readBody_error hl]
    exact .refl _
  | ok leading? =>
    cases leading? with
    | none =>
      rw [readBody_split hl, readBody_split hl]
      exact (Refines.readEntries h _).bind fun _ => .refl _
    | some leading =>
      rw [readBody_text hl, readBody_text hl]
      refine Refines.bind ?_ fun _ => .refl _
      split
      · exact Refines.readEntries h _
      · exact .refl _

end

/-- More levels to spend make no difference to a widget that is read with fewer. -/
theorem readWidget_mono (allowed : Nat) {left more : Nat} (h : left ≤ more) (call : Call) :
    Refines (readWidget allowed left call) (readWidget allowed more call) := by
  induction left generalizing more call with
  | zero =>
    intro w hw
    cases hw
  | succ left ih =>
    obtain ⟨more, rfl⟩ : ∃ n, more = n + 1 := ⟨more - 1, by omega⟩
    exact Refines.readBody (fun call => ih (by omega) call) call

theorem Occurs.exists_callAt {s : Cursor} {call : Call} (h : Occurs s call) :
    Widget.isWidgetName call.name = true ∧
      ∃ t n, CallAt t call n ∧ t.ahead <:+: s.ahead := by
  cases h with
  | @value k n h =>
    cases formAt_of_readForm h with
    | widget hc hw =>
      refine ⟨hw, _, _, hc, ?_⟩
      rw [unworded, Cursor.forward_forward]
      exact (s.forward_suffix _).isInfix
  | @item k n j m items h hi =>
    obtain ⟨hw, m, hc, -⟩ := callAt_of_readItem hi
    have hitems : items.ahead <:+: s.ahead := by
      cases formAt_of_readForm h with
      | list _ he =>
        refine he.isInfix.trans ?_
        rw [unworded, Cursor.forward_forward]
        exact (s.forward_suffix _).isInfix
      | typed _ ht =>
        obtain ⟨list, ht, he⟩ := ht
        refine he.isInfix.trans ?_
        rw [(typedList?_cases ht).1, unworded, Cursor.forward_forward, Cursor.forward_forward]
        exact (s.forward_suffix _).isInfix
    refine ⟨hw, _, m, hc, ?_⟩
    rw [unworded, Cursor.forward_forward]
    exact (items.forward_suffix _).isInfix.trans hitems

theorem Expression.CallAt.arguments_infix {s : Cursor} {call : Call} {n : Nat} (h : CallAt s call n) :
    call.arguments.ahead <:+: s.ahead := by
  obtain ⟨-, -, -, m, he, -⟩ := h
  exact he.isInfix.trans (s.forward_suffix _).isInfix

theorem Expression.arguments_infix_of_readCall {s rest : Cursor} {call : Call}
    (h : readCall s = .ok (call, rest)) : call.arguments.ahead <:+: s.ahead := by
  obtain ⟨n, hcall, -⟩ := readCall_eq_ok_iff.mp h
  refine hcall.arguments_infix.trans ?_
  exact ((Cursor.forward_suffix _ _).trans (Cursor.forward_suffix _ _)).isInfix

/-- A widget deeper in a tree is read from a call that stands in one piece among the arguments. -/
theorem exists_callAt_of_within {allowed left : Nat} {call : Call} {w v : Widget}
    (h : readWidget allowed left call = .ok w) (hv : Widget.Within v w) :
    w = v ∨ ∃ t n inner, t.ahead <:+: call.arguments.ahead ∧ CallAt t inner n ∧
      Widget.isWidgetName inner.name = true ∧ readWidget allowed left inner = .ok v := by
  -- By induction on the levels left: what is read with fewer of them is read with all.
  induction left generalizing call w with
  | zero => cases h
  | succ left ih =>
    rcases Widget.within_iff.mp hv with rfl | ⟨u, hu, hv⟩
    · exact .inl rfl
    · obtain ⟨inner, ho, hd⟩ := occurs_of_mem_held h hu
      obtain ⟨hw, t, n, hc, hi⟩ := ho.exists_callAt
      have hmono := readWidget_mono allowed (Nat.le_succ left)
      rcases ih hd hv with rfl | ⟨t', n', inner', hi', hc', hw', hr'⟩
      · exact .inr ⟨t, n, inner, hi, hc, hw, hmono inner _ hd⟩
      · exact .inr ⟨t', n', inner', hi'.trans (hc.arguments_infix.trans hi), hc', hw', hmono inner' _ hr'⟩

/-- The part of a source text from a name to the bracket that closes its argument list. -/
def cut (s : Cursor) (n : Nat) : Cursor := ⟨[], s.ahead.take n⟩

theorem cut_after (s : Cursor) (n : Nat) : (cut s n).after s.behind = s.within n := rfl

theorem opening_cut {s : Cursor} {m n : Nat} (hp : 0 < pathLength s.ahead)
    (hn : n = pathLength s.ahead + triviaLength (s.ahead.drop (pathLength s.ahead)) + m) :
    pathLength (cut s n).ahead = pathLength s.ahead ∧
      triviaLength ((cut s n).ahead.drop (pathLength s.ahead)) =
        triviaLength (s.ahead.drop (pathLength s.ahead)) ∧
      (opening (cut s n)).Settled s.behind ∧
      (opening (cut s n)).after s.behind = (opening s).within m := by
  have hpath : pathLength (cut s n).ahead = pathLength s.ahead := pathLength_take hp (by omega)
  have hgap : triviaLength ((cut s n).ahead.drop (pathLength s.ahead)) =
      triviaLength (s.ahead.drop (pathLength s.ahead)) := by
    rw [cut, List.drop_take]
    exact gapLength_take (by rw [← triviaLength]; omega)
  have hle := pathLength_le s.ahead
  refine ⟨hpath, hgap, ?_, ?_⟩
  · apply Cursor.settled_of_behind
    intro hb
    rw [opening, hpath, hgap, Cursor.forward_behind] at hb
    have := congrArg List.length hb
    simp only [cut, List.append_nil, List.length_reverse, List.length_take, List.length_nil] at this
    omega
  · rw [opening, hpath, hgap, ← Cursor.after_forward, cut_after, Cursor.forward_within (by omega),
      opening, hn, Nat.add_sub_cancel_left]

theorem Expression.CallAt.cut {s : Cursor} {call : Call} {n : Nat} (h : CallAt s call n) :
    ∃ own, call = own.after s.behind ∧ CallAt (cut s n) own n := by
  obtain ⟨hp, hname, ho, _, ⟨m, hm, ha, rfl⟩, hn⟩ := h
  obtain ⟨hpath, hgap, hsettled, hafter⟩ := opening_cut hp hn
  obtain ⟨cs, hc⟩ := List.head?_eq_some_iff.mp ho
  have hahead : (opening (WidgetJsx.cut s n)).ahead = ((opening s).within (m + 1)).ahead := by
    rw [← hafter]
    rfl
  have hclose : closing? (opening (WidgetJsx.cut s n)).previous (opening (WidgetJsx.cut s n)).ahead =
      some m := by
    rw [← hsettled, hafter, hahead]
    exact closing?_within hc (k := ')') rfl hm (Nat.lt_succ_self m)
  have hone := (scans_of_closing? hc (k := ')') rfl hm).1
  refine ⟨⟨call.name, ((opening (WidgetJsx.cut s n)).forward 1).within (m - 1)⟩, ?_,
    ⟨by rwa [hpath], ?_, ?_, m + 1, ⟨m, hclose, rfl, rfl⟩, by rw [hpath, hgap, ← hn]⟩⟩
  · obtain ⟨name, arguments⟩ := call
    rw [Call.after, ← Cursor.after_within, ← Cursor.after_forward, hafter, Call.mk.injEq]
    refine ⟨rfl, ha.trans ?_⟩
    rw [Cursor.forward_within (by omega), Cursor.within_within (by omega)]
  · rw [hpath, hname, Cursor.text, Cursor.text, WidgetJsx.cut, List.take_take,
      Nat.min_eq_left (by omega)]
  · rw [Cursor.next?, hahead, Cursor.within_ahead, hc]
    rfl

theorem not_keyword_of_isWidgetName {name : String} (h : Widget.isWidgetName name = true) :
    ∀ word ∈ keywords, name.toList ≠ word.toList := by
  intro word hw he
  obtain rfl := String.toList_inj.mp he
  exact not_mem_reserved h (mem_reserved_of_mem_keywords hw)

/-- A call is read from its own part of the text, unless a keyword is what the part begins with. -/
theorem readCall_cut_of_keywordLength {s : Cursor} {call : Call} {n : Nat} (h : CallAt s call n)
    (hk : keywordLength (cut s n).ahead = 0) :
    ∃ own rest, call = own.after s.behind ∧ CallAt (cut s n) own n ∧
      readCall (cut s n) = .ok (own, rest) ∧ expectEnd rest = .ok () := by
  obtain ⟨own, ho, hown⟩ := h.cut
  obtain ⟨names, path, gap, more, ha, hpath, -, -, -⟩ := hown.text_eq
  have hstart : callStart (cut s n) = cut s n := by
    have hs := callStart_eq .nil .none (hpath.firm.append _).solid (ha ▸ hk) []
    rwa [List.nil_append, List.nil_append, ← ha] at hs
  refine ⟨own, (cut s n).forward n, ho, hown,
    readCall_eq_ok_iff.mpr ⟨n, by rwa [hstart], by rw [hstart]⟩, ?_⟩
  have he : ((cut s n).forward n).ahead = [] := by
    rw [Cursor.forward_ahead, cut, List.drop_take, Nat.sub_self, List.take_zero]
  rw [expectEnd_eq_ok_iff, he]
  exact Nat.zero_le _

theorem readCall_cut {s : Cursor} {call : Call} {n : Nat} (h : CallAt s call n)
    (hw : Widget.isWidgetName call.name = true) :
    ∃ own rest, call = own.after s.behind ∧ readCall (cut s n) = .ok (own, rest) ∧
      expectEnd rest = .ok () := by
  suffices hk : keywordLength (cut s n).ahead = 0 by
    obtain ⟨own, rest, ho, -, hr, he⟩ := readCall_cut_of_keywordLength h hk
    exact ⟨own, rest, ho, hr, he⟩
  obtain ⟨own, ho, hown⟩ := h.cut
  have hname : call.name = own.name := by rw [ho]; rfl
  obtain ⟨names, path, gap, more, ha, -, hgap, hn, -⟩ := hown.text_eq
  have hpath : IsName path := by
    have := hown.isName_of_isWidgetName (hname ▸ hw)
    rwa [hn, String.toList_ofList] at this
  have hends : Ends (gap ++ '(' :: (own.arguments.ahead ++ ')' :: more)) :=
    (Trivia.breaks hgap (breaks_cons (by decide) (by decide) (by decide) _)).ends
  have hkey := not_keyword_of_isWidgetName (hname ▸ hw)
  rw [hn, String.toList_ofList] at hkey
  rw [ha]
  exact hpath.keywordLength_eq_zero hends hkey

theorem utf8ByteSize_le_of_isInfix {part source : String} (h : part.toList <:+: source.toList) :
    part.utf8ByteSize ≤ source.utf8ByteSize := by
  obtain ⟨u, v, h⟩ := h
  have : source = String.ofList u ++ part ++ String.ofList v := by
    rw [← String.toList_inj]
    simp [← h]
  rw [this, String.utf8ByteSize_append, String.utf8ByteSize_append]
  omega

namespace Widget

/-- Every widget of a tree is what some part of the source text reads as, under the same limits. -/
theorem read_part {limits : Limits} {source : String} {root w : Widget}
    (h : Widget.read limits source = .ok root) (hw : Within w root) :
    ∃ part : String, part.toList <:+: source.toList ∧ Widget.read limits part = .ok w := by
  obtain ⟨hb, call, rest, hc, -, hr, -⟩ := read_eq_ok_iff.mp h
  rcases exists_callAt_of_within hr hw with rfl | ⟨t, n, inner, hi, hcall, hname, hr'⟩
  · exact ⟨source, List.infix_rfl, h⟩
  obtain ⟨own, rest', rfl, hown, hend⟩ := readCall_cut hcall hname
  have hpart : (cut t n).ahead <:+: source.toList :=
    (List.take_prefix n _).isInfix.trans (hi.trans (arguments_infix_of_readCall hc))
  obtain ⟨k, howncall, -⟩ := readCall_eq_ok_iff.mp hown
  refine ⟨String.ofList (cut t n).ahead, by rwa [String.toList_ofList], ?_⟩
  rw [read_eq_ok_iff, String.toList_ofList]
  refine ⟨(utf8ByteSize_le_of_isInfix (by rwa [String.toList_ofList])).trans hb, own, rest', hown, ?_,
    ?_, hend⟩
  · simp only [isWidgetName, Bool.and_eq_true, Bool.not_eq_true'] at hname
    exact hname.1.2
  · rw [readWidget_after _ _ _ own (howncall.settled _)] at hr'
    cases hw : readWidget limits.depth limits.depth own with
    | ok w' =>
      rw [hw] at hr'
      exact hr'
    | error fault =>
      rw [hw] at hr'
      cases hr'

set_option maxRecDepth 4000 in
theorem read_part_child : ∃ part : String, part.toList <:+: "Row(gap: 1, child: Text('a'))".toList ∧
    Widget.read .standard part = .ok ⟨"Text", ⟨[]⟩, some "a", .none⟩ := by
  have h : Widget.read .standard "Row(gap: 1, child: Text('a'))" =
      .ok ⟨"Row", ⟨[("gap", .number "1")]⟩, none, .child ⟨"Text", ⟨[]⟩, some "a", .none⟩⟩ := by cbv
  exact read_part h (.single (by simp [held, Argument.held, Content.toList]))

end Widget

end WidgetJsx
