import WidgetJsx.Proofs.KeptText

/-! Reading two texts that differ in a gap. What the first is read as, the second is read as too: the same
forms at places that correspond, down to texts that are kept as they are written. -/

namespace WidgetJsx

open Expression Text

/-- What the first reader finds has a counterpart that the second one finds. -/
def Ties {α α' : Type} (R : α → α' → Prop) (x : Except Fault α) (x' : Except Fault α') : Prop :=
  ∀ a, x = .ok a → ∃ a', x' = .ok a' ∧ R a a'

namespace Ties

variable {α α' β β' : Type} {R : α → α' → Prop} {S : β → β' → Prop}
  {x y : Except Fault α} {x' y' : Except Fault α'}

theorem ok {a : α} {a' : α'} (h : R a a') : Ties R (.ok a) (.ok a') := by
  rintro b ⟨⟩
  exact ⟨a', rfl, h⟩

theorem error (fault : Fault) (x' : Except Fault α') : Ties R (.error fault) x' := by
  rintro a ⟨⟩

theorem bind {f : α → Except Fault β} {f' : α' → Except Fault β'} (h : Ties R x x')
    (hf : ∀ a a', R a a' → Ties S (f a) (f' a')) : Ties S (x >>= f) (x' >>= f') := by
  intro b hb
  obtain ⟨a, rfl, hb⟩ := exists_of_bind_eq_ok hb
  obtain ⟨a', rfl, ha⟩ := h a rfl
  exact hf a a' ha b hb

theorem ite {c c' : Prop} [Decidable c] [Decidable c'] (hc : c ↔ c') (ht : c → Ties R x x')
    (hf : ¬ c → Ties R y y') : Ties R (if c then x else y) (if c' then x' else y') := by
  by_cases h : c
  · rw [if_pos h, if_pos (hc.mp h)]
    exact ht h
  · rw [if_neg h, if_neg (mt hc.mpr h)]
    exact hf h

end Ties

namespace Expression

/-- Forms that are the same, but for the texts that are kept as they are written. -/
inductive Form.Alike (core : List Char) : Form → Form → Prop
  | string (text : String) : Alike core (.string text) (.string text)
  | number (text : String) : Alike core (.number text) (.number text)
  | boolean (value : Bool) : Alike core (.boolean value) (.boolean value)
  | reference (path : String) : Alike core (.reference path) (.reference path)
  | construction {text text' : String} : Kept core text text' →
      Alike core (.construction text) (.construction text')
  | widget {call call' : Call} : call'.name = call.name →
      (∃ w : Swap, w.Joins core call.arguments call'.arguments) → Alike core (.widget call) (.widget call')
  | widgets {items items' : Cursor} : (∃ w : Swap, w.Joins core items items') →
      Alike core (.widgets items) (.widgets items')
  | raw {text text' : String} : Kept core text text' → Alike core (.raw text) (.raw text')

theorem not_dottedPath_of_prefix {u cs : List Char} (hu : u <+: cs)
    (h : '.' ∉ cs.take (pathLength cs)) : ¬ DottedPath u := by
  rintro ⟨hd, hl⟩
  obtain ⟨rest, rfl⟩ := hu
  have hle : u.length ≤ pathLength (u ++ rest) := by
    by_contra hlt
    rcases Nat.eq_zero_or_pos (pathLength (u ++ rest)) with hz | hp
    · cases u with
      | nil => exact absurd hd List.not_mem_nil
      | cons c u =>
        have hc : isNameStart c = false := by
          by_contra hc
          rw [Bool.not_eq_false] at hc
          rw [List.cons_append, pathLength, if_pos hc, pathLength_go_add 1 0] at hz
          omega
        rw [pathLength, hc, if_neg Bool.false_ne_true] at hl
        cases hl
    · have hcut := pathLength_take hp (m := u.length) (by omega)
      rw [List.take_left, hl] at hcut
      omega
  exact h (List.mem_of_mem_take (i := u.length) (by rwa [List.take_take, Nat.min_eq_left hle, List.take_left]))

namespace CallAt

variable {s : Cursor} {call : Call} {n : Nat}

theorem take_eq (h : CallAt s call n) : ∃ names path more, PathOf names path ∧
    (∃ gap, Trivia gap ∧ more = gap ++ '(' :: (call.arguments.ahead ++ [')'])) ∧
      s.ahead.take n = path ++ more := by
  obtain ⟨names, path, gap, rest, ha, hp, hg, -, rfl⟩ := h.text_eq
  refine ⟨names, path, _, hp, ⟨gap, hg, rfl⟩, ?_⟩
  rw [ha, show path ++ (gap ++ '(' :: (call.arguments.ahead ++ ')' :: rest)) =
    path ++ (gap ++ '(' :: (call.arguments.ahead ++ [')'])) ++ rest by simp, List.take_left]

theorem trimmed (h : CallAt s call n) : Trimmed (s.ahead.take n) := by
  obtain ⟨names, path, more, hp, ⟨gap, -, rfl⟩, ht⟩ := h.take_eq
  obtain ⟨c, cs, rfl, hc, -⟩ := hp.firm
  rw [ht, ← List.cons_append, ← List.append_assoc, ← List.append_assoc]
  exact trimmed_of_ends rfl hc List.getLast?_concat (by decide : isBlank ')' = false)

theorem not_dottedPath (h : CallAt s call n) : ¬ DottedPath (s.ahead.take n) := by
  rintro ⟨-, hl⟩
  obtain ⟨names, path, more, hp, ⟨gap, hg, rfl⟩, ht⟩ := h.take_eq
  have hbreaks : Breaks ('(' :: (call.arguments.ahead ++ [')'])) :=
    breaks_cons (by decide) (by decide) (by decide) _
  rw [ht, (opening_append hp hg hbreaks (solid_cons (by decide) (by decide) _) []).1] at hl
  simp at hl

end CallAt

theorem numberLength_le (cs : List Char) : numberLength cs ≤ cs.length := by
  rcases Nat.eq_zero_or_pos (numberLength cs) with hz | hp
  · omega
  · obtain ⟨u, rest, rfl, hl, -⟩ := number_split hp
    rw [hl, List.length_append]
    exact Nat.le_add_right _ _

/-- Ahead of the cursor stands neither white space nor a dotted path. -/
structure RawStart (s : Cursor) : Prop where
  head : ∀ c ∈ s.next?, isBlank c = false
  no_dot : '.' ∉ s.ahead.take (pathLength s.ahead)

theorem Solid.head {cs : List Char} (h : Solid isBlank cs) : ∀ c ∈ cs.head?, isBlank c = false := by
  intro c hc
  obtain ⟨cs, rfl⟩ := List.head?_eq_some_iff.mp hc
  exact (solid_cons_iff.mp h).1

section

variable {s : Cursor}

theorem head_unworded (hs : ∀ c ∈ s.next?, isBlank c = false) :
    ∀ c ∈ (unworded s).next?, isBlank c = false := by
  rw [unworded]
  rcases keyword_split s.ahead with hz | ⟨word, -, rest, ha, -, hl⟩
  · rwa [hz, Cursor.forward_zero]
  · rw [Cursor.next?, Cursor.forward_ahead, hl, ha, ← List.drop_drop, List.drop_left]
    exact Solid.head (solid_drop rest)

/-- A keyword in front of an angle bracket is a word of its own. -/
theorem rawStart_of_angle (hs : ∀ c ∈ s.next?, isBlank c = false)
    (hn : (unworded s).next? = some '<') : RawStart s := by
  refine ⟨hs, ?_⟩
  have hstart : isNameStart '<' = false := by decide
  rw [unworded] at hn
  rcases keyword_split s.ahead with hz | ⟨word, hw, rest, ha, -, hl⟩
  · rw [hz, Cursor.forward_zero] at hn
    obtain ⟨cs, ha⟩ := List.head?_eq_some_iff.mp hn
    rw [ha, pathLength, hstart, if_neg Bool.false_ne_true, List.take_zero]
    exact List.not_mem_nil
  · rw [Cursor.next?, Cursor.forward_ahead, hl, ha, ← List.drop_drop, List.drop_left] at hn
    obtain ⟨cs, hcs⟩ := List.head?_eq_some_iff.mp hn
    have hlt : triviaLength rest < rest.length := by
      by_contra hge
      rw [List.drop_eq_nil_of_le (by omega)] at hcs
      cases hcs
    have hbreaks : Breaks rest := by
      rw [← List.take_append_drop (triviaLength rest) rest, hcs]
      exact (show Trivia _ from gap_take hlt).breaks (breaks_cons (by decide) (by decide) (by decide) cs)
    rw [ha, (pathOf_singleton (isName_of_mem_keywords word hw)).pathLength_eq hbreaks.pathStops,
      List.take_left]
    rcases mem_keywords hw with rfl | rfl <;> decide

end

namespace Swap

variable {core : List Char} {w v : Swap} {s s' : Cursor} {m m' n n' : Nat}

/-- So many characters lead to places that correspond. Where they are none, one code item is ahead. -/
structure Paces (w : Swap) (s : Cursor) (n n' : Nat) : Prop where
  meets : w.Meets s n n'
  first : n = 0 → s.ahead ≠ [] → w.Meets s 1 1

theorem Paces.of_pos (h : w.Meets s n n') (hn : 0 < n) : w.Paces s n n' := ⟨h, fun hz => by omega⟩

theorem Leads.paces (h : w.Leads core v s s' m m') (hr : w.Ready) (hp : v.Paces (s.forward m) n n') :
    w.Paces s (m + n) (m' + n') := by
  refine ⟨h.meets _ _ hp.meets, fun hz hne => ?_⟩
  obtain ⟨rfl, rfl⟩ : m = 0 ∧ n = 0 := by omega
  obtain rfl := hr.meets_zero h.here
  simpa using h.meets 1 1 (hp.first rfl (by simpa using hne))

/-- Forms that are alike, of lengths that correspond. -/
def FoundAlike (core : List Char) (w : Swap) (s : Cursor) (x x' : Form × Nat) : Prop :=
  x.1.Alike core x'.1 ∧ w.Paces s x.2 x'.2

namespace Joins

theorem ties_listForm (h : w.Joins core s s') (hn : s.next? = some '[') :
    Ties (w.FoundAlike core s) (listForm s) (listForm s') := by
  rintro ⟨form, n⟩ hf
  obtain ⟨items, rfl, he⟩ := listForm_cases hf
  obtain ⟨items', n', he', hm, hj⟩ := h.encloses hn (k := ']') rfl he
  refine ⟨(.widgets items', n'), ?_, .widgets hj, .of_pos hm ?_⟩
  · rw [listForm, bracketed_eq_ok_iff.mpr he']
    rfl
  · obtain ⟨m, -, -, rfl⟩ := he
    exact Nat.succ_pos m

theorem ties_rawForm (h : w.Joins core s s') (hr : w.Ready) (hs : RawStart s) :
    Ties (w.FoundAlike core s) (rawForm s) (rawForm s') := by
  have hs' : RawStart s' := by
    refine ⟨h.next?_eq hr ▸ hs.head, ?_⟩
    have htext := congrArg String.toList h.text_path
    rw [Cursor.text, Cursor.text, String.toList_ofList, String.toList_ofList] at htext
    exact htext ▸ hs.no_dot
  have hnot : ∀ {t : Cursor}, RawStart t → ∀ k, ¬ DottedPath (trim (t.ahead.take k)) := by
    intro t ht k
    refine not_dottedPath_of_prefix ?_ ht.no_dot
    have hhead : ∀ c ∈ (t.ahead.take k).head?, isBlank c = false := by
      intro c hc
      refine ht.head c ?_
      rw [List.head?_take] at hc
      split at hc
      · cases hc
      · exact hc
    rw [trim_eq_trimEnd hhead]
    exact (prefix_trimEnd _).trans (List.take_prefix _ _)
  obtain ⟨hm, hfirst⟩ := h.rawLength hr
  exact .ok ⟨.raw (h.kept hr hs.head hm (hnot hs _) (hnot hs' _)), hm, hfirst⟩

/-- Calls that correspond are both read as widgets, or both are kept as they are written. -/
theorem alike_callForm {name : String} {arguments arguments' : Cursor} (h : w.Joins core s s')
    (hr : w.Ready) (hs : ∀ c ∈ s.next?, isBlank c = false) (hc : CallAt s ⟨name, arguments⟩ n)
    (hc' : CallAt s' ⟨name, arguments'⟩ n') (hm : w.Meets s n n')
    (hargs : ∃ v : Swap, v.Joins core arguments arguments') :
    Form.Alike core (if Widget.isWidgetName name then .widget ⟨name, arguments⟩ else .construction (s.text n))
      (if Widget.isWidgetName name then .widget ⟨name, arguments'⟩ else .construction (s'.text n')) := by
  split
  · exact .widget rfl hargs
  · have htrim := trim_eq_self hc.trimmed
    have htrim' := trim_eq_self hc'.trimmed
    have hkept := h.kept hr hs hm (by rw [htrim]; exact hc.not_dottedPath)
      (by rw [htrim']; exact hc'.not_dottedPath)
    rw [htrim, htrim'] at hkept
    exact .construction hkept

theorem ties_compoundForm (h : w.Joins core s s') (hr : w.Ready)
    (hs : ∀ c ∈ s.next?, isBlank c = false) : Ties (w.FoundAlike core s)
      (compoundForm s (keywordLength s.ahead)) (compoundForm s' (keywordLength s'.ahead)) := by
  obtain ⟨v, hv, hl⟩ := h.keyword
  have hv := hv hr
  have hj : v.Joins core (unworded s) (unworded s') := hl.joins
  have hnext : ∀ {c : Char}, isBlank c = false → c ≠ '/' →
      ((unworded s).next? = some c ↔ (unworded s').next? = some c) := hj.next?_iff
  have htext := hj.text_path
  simp only [compoundForm, show s.forward (keywordLength s.ahead) = unworded s from rfl,
    show s'.forward (keywordLength s'.ahead) = unworded s' from rfl, opening_eq]
  -- Both readers take one branch: what they decide by is the same in both texts.
  refine .ite (by rw [hj.pathLength_eq, hj.opening_iff]) (fun hc => ?_) fun hc => .ite ?_ (fun hd => ?_)
    fun hd => .ite (hnext (by decide) (by decide)) (fun hlist => ?_) fun hlist =>
      .ite (hnext (by decide) (by decide)) (fun hangle => ?_) fun hangle => ?_
  · rintro _ hx
    obtain ⟨⟨arguments, m⟩, hb, hx⟩ := exists_of_bind_eq_ok hx
    cases hx
    have hcall : CallAt (unworded s) ⟨(unworded s).text (pathLength (unworded s).ahead), arguments⟩ _ :=
      ⟨hc.1, rfl, hc.2, m, bracketed_eq_ok_iff.mp hb, rfl⟩
    obtain ⟨⟨name, arguments'⟩, n', hcall', rfl, hm, hargs⟩ := hj.callAt hcall
    obtain ⟨-, -, -, m', he', rfl⟩ := id hcall'
    rw [bracketed_eq_ok_iff.mpr he', ← htext]
    exact ⟨_, rfl, hj.alike_callForm hv (head_unworded hs) hcall hcall' hm hargs,
      hl.paces hr (.of_pos hm (by have := hcall.path_pos; omega))⟩
  · rw [Cursor.text, Cursor.text, String.ofList_inj] at htext
    rw [htext]
  · have hd : '.' ∈ (unworded s).ahead.take (pathLength (unworded s).ahead) := by simpa using hd
    have hpos : 0 < pathLength (unworded s).ahead := by
      apply Nat.pos_of_ne_zero
      intro hz
      rw [hz] at hd
      exact absurd hd List.not_mem_nil
    rw [← htext, ← hj.pathLength_eq]
    exact .ok ⟨.reference _, hl.paces hr (.of_pos (hj.meets_dotted hd) hpos)⟩
  · exact (hj.ties_listForm hlist).bind fun a a' ha => .ok ⟨ha.1, hl.paces hr ha.2⟩
  · cases ht : Expression.typedList? (unworded s) with
    | none =>
      rw [hj.typedList?_eq_none hangle ht]
      exact h.ties_rawForm hr (rawStart_of_angle hs hangle)
    | some typed =>
      obtain ⟨list, k⟩ := typed
      obtain ⟨rfl, hn, k', ht', x, hx⟩ := hj.typedList? hangle ht
      rw [ht']
      refine (hx.joins.ties_listForm hn).bind fun a a' ha => .ok ⟨ha.1, ?_⟩
      have hpaces := ha.2
      rw [unworded, Cursor.forward_forward] at hpaces
      exact (hl.trans hx).paces hr hpaces
  · refine (hj.ties_rawForm hv ⟨head_unworded hs, ?_⟩).bind fun a a' ha => .ok ⟨ha.1, hl.paces hr ha.2⟩
    simpa using hd

theorem ties_readForm (h : w.Joins core s s') (hr : w.Ready) (hs : ∀ c ∈ s.next?, isBlank c = false) :
    Ties (w.FoundAlike core s) (readForm s) (readForm s') := by
  have hnumber : numberLength s.ahead = numberLength s'.ahead := h.eq_of_loose Loose.numberLength
  have htrue : IsName "true".toList := by decide
  have hfalse : IsName "false".toList := by decide
  unfold readForm
  refine .ite (by rw [h.startsString]) (fun hstring => ?_) fun _ => .ite (by rw [hnumber]) (fun hp => ?_)
    fun _ => .ite (by rw [h.startsWithWord htrue]) (fun ht => ?_)
    fun _ => .ite (by rw [h.startsWithWord hfalse]) (fun ht => ?_)
    fun _ => h.ties_compoundForm hr hs
  · cases hl : stringLength? s.ahead with
    | none => exact .error _ _
    | some n =>
      obtain ⟨hl', htext, hm⟩ := h.string hstring hl
      rw [hl']
      dsimp only
      rw [htext]
      exact .ok ⟨.string _, .of_pos hm (by have := (two_le_of_stringLength? hstring hl).1; omega)⟩
  · rw [← hnumber, Cursor.text, Cursor.text,
      h.take_eq_of_loose Loose.numberLength numberLength_le]
    exact .ok ⟨.number _, .of_pos (h.meets_of_loose Loose.numberLength numberLength_le
      (scans_number hp []).edge) hp⟩
  · exact .ok ⟨.boolean true, .of_pos (h.meets_word ht htrue (by decide)) (by decide)⟩
  · exact .ok ⟨.boolean false, .of_pos (h.meets_word ht hfalse (by decide)) (by decide)⟩

theorem ties_readItem (h : w.Joins core s s') (hr : w.Ready) :
    Ties (fun x x' => Option.Rel (fun call call' => call'.name = call.name ∧
        ∃ v : Swap, v.Joins core call.arguments call'.arguments) x.1 x'.1 ∧ w.Paces s x.2 x'.2)
      (readItem s) (readItem s') := by
  obtain ⟨v, hv, hl⟩ := h.keyword
  have hj : v.Joins core (unworded s) (unworded s') := hl.joins
  simp only [readItem, show s.forward (keywordLength s.ahead) = unworded s from rfl,
    show s'.forward (keywordLength s'.ahead) = unworded s' from rfl, opening_eq]
  refine .ite (by rw [hj.opening_iff, hj.text_path]) (fun hc => ?_) fun _ => ?_
  · rintro _ hx
    obtain ⟨⟨arguments, m⟩, hb, hx⟩ := exists_of_bind_eq_ok hx
    cases hx
    have hpos : 0 < pathLength (unworded s).ahead := by
      apply Nat.pos_of_ne_zero
      intro hz
      have := hc.2
      rw [hz] at this
      exact absurd (show Widget.isWidgetName "" = true from this) (by decide)
    have hcall : CallAt (unworded s) ⟨(unworded s).text (pathLength (unworded s).ahead), arguments⟩ _ :=
      ⟨hpos, rfl, hc.1, m, bracketed_eq_ok_iff.mp hb, rfl⟩
    obtain ⟨⟨name, arguments'⟩, n', hcall', hname, hm, hargs⟩ := hj.callAt hcall
    obtain ⟨-, -, -, m', he', rfl⟩ := hcall'
    rw [bracketed_eq_ok_iff.mpr he', ← hj.text_path]
    refine ⟨_, rfl, .some ⟨rfl, hargs⟩, ?_⟩
    simpa only [Nat.add_assoc] using hl.paces hr (.of_pos hm (by omega))
  · obtain ⟨hm, hfirst⟩ := h.rawLength hr
    exact .ok ⟨.none, hm, hfirst⟩

end Joins

end Swap

end Expression

end WidgetJsx
