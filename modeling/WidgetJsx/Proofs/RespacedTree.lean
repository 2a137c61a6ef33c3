import WidgetJsx.Proofs.Respaced

/-! From the forms of two texts that differ in a gap to the trees that are read from them. The trees have the
same shape, names and literals; an expression that is kept as it is written may show the gap. -/

namespace WidgetJsx

open Expression Text

/-- Arguments that are the same, but for the texts that are kept as they are written and the widgets. -/
inductive Argument.Alike {W : Type} (core : List Char) (R : W → W → Prop) : Argument W → Argument W → Prop
  | string (text : String) : Alike core R (.string text) (.string text)
  | number (text : String) : Alike core R (.number text) (.number text)
  | boolean (value : Bool) : Alike core R (.boolean value) (.boolean value)
  | reference (path : String) : Alike core R (.reference path) (.reference path)
  | construction {text text' : String} : Kept core text text' →
      Alike core R (.construction text) (.construction text')
  | widget {w w' : W} : R w w' → Alike core R (.widget w) (.widget w')
  | widgets {ws ws' : List W} : List.Forall₂ R ws ws' → Alike core R (.widgets ws) (.widgets ws')
  | raw {text text' : String} : Kept core text text' → Alike core R (.raw text) (.raw text')

inductive Content.Alike {W : Type} (R : W → W → Prop) : Content W → Content W → Prop
  | none : Alike R .none .none
  | child {w w' : W} : R w w' → Alike R (.child w) (.child w')
  | children {ws ws' : List W} : List.Forall₂ R ws ws' → Alike R (.children ws) (.children ws')

/-- Widgets that are alike, where `R` relates the widgets that they hold. -/
structure Widget.Alike (core : List Char) (R : Widget → Widget → Prop) (w w' : Widget) : Prop where
  name_eq : w'.name = w.name
  arguments : w.arguments.Alike (Argument.Alike core R) w'.arguments
  text_eq : w'.text? = w.text?
  content : w.content.Alike R w'.content

structure Construction.Alike (core : List Char) (R : Widget → Widget → Prop) (c c' : Construction) : Prop where
  name_eq : c'.name = c.name
  positional : List.Forall₂ (Argument.Alike core R) c.positional c'.positional
  named : c.named.Alike (Argument.Alike core R) c'.named

namespace Content

variable {core : List Char} {R : Widget → Widget → Prop}

theorem Alike.toList {c c' : Content Widget} (h : c.Alike R c') : List.Forall₂ R c.toList c'.toList := by
  cases h with
  | none => exact .nil
  | child hw => exact .cons hw .nil
  | children hws => exact hws

theorem split_of_child {fs : Fields (Argument Widget)} {w : Widget} (h : fs.get? "child" = some (.widget w)) :
    split fs = (fs.erase "child", .child w) := by
  unfold split
  rw [h]

theorem split_of_children {fs : Fields (Argument Widget)} {ws : List Widget}
    (hc : ∀ w, fs.get? "child" ≠ some (.widget w)) (h : fs.get? "children" = some (.widgets ws)) :
    split fs = (fs.erase "children", .children ws) := by
  rcases split_cases fs with ⟨w, hw, -⟩ | ⟨-, us, hus, he⟩ | ⟨-, hn, -⟩
  · exact absurd hw (hc w)
  · rw [h] at hus
    cases hus
    exact he
  · exact absurd h (hn ws)

theorem split_of_none {fs : Fields (Argument Widget)} (hc : ∀ w, fs.get? "child" ≠ some (.widget w))
    (h : ∀ ws, fs.get? "children" ≠ some (.widgets ws)) : split fs = (fs, .none) := by
  rcases split_cases fs with ⟨w, hw, -⟩ | ⟨-, ws, hws, -⟩ | ⟨-, -, he⟩
  · exact absurd hw (hc w)
  · exact absurd hws (h ws)
  · exact he

theorem alike_split {fs gs : Fields (Argument Widget)} (h : fs.Alike (Argument.Alike core R) gs) :
    (split fs).1.Alike (Argument.Alike core R) (split gs).1 ∧ (split fs).2.Alike R (split gs).2 := by
  have hchild := h.get? "child"
  have hchildren := h.get? "children"
  generalize hx : fs.get? "child" = x at hchild
  generalize hx' : gs.get? "child" = x' at hchild
  generalize hy : fs.get? "children" = y at hchildren
  generalize hy' : gs.get? "children" = y' at hchildren
  -- Both tables have a widget under `child` or neither has, and so with a list under `children`.
  by_cases hw : ∃ w, x = some (.widget w)
  · obtain ⟨w, rfl⟩ := hw
    cases hchild with
    | some ha =>
      cases ha with
      | widget hr =>
        rw [split_of_child hx, split_of_child hx']
        exact ⟨h.erase _, .child hr⟩
  have hc : ∀ w, x ≠ some (.widget w) := fun w he => hw ⟨w, he⟩
  have hc' : ∀ w, x' ≠ some (.widget w) := by
    rintro w rfl
    cases hchild with
    | some ha =>
      cases ha with
      | widget => exact hc _ rfl
  by_cases hws : ∃ ws, y = some (.widgets ws)
  · obtain ⟨ws, rfl⟩ := hws
    cases hchildren with
    | some ha =>
      cases ha with
      | widgets hr =>
        rw [split_of_children (hx ▸ hc) hy, split_of_children (hx' ▸ hc') hy']
        exact ⟨h.erase _, .children hr⟩
  have hn' : ∀ ws, y' ≠ some (.widgets ws) := by
    rintro ws rfl
    cases hchildren with
    | some ha =>
      cases ha with
      | widgets => exact hws ⟨_, rfl⟩
  rw [split_of_none (hx ▸ hc) (hy ▸ fun ws he => hws ⟨ws, he⟩), split_of_none (hx' ▸ hc') (hy' ▸ hn')]
  exact ⟨h, .none⟩

end Content

/-- A reader of calls that finds related widgets in calls whose arguments are joined. -/
def Respects (core : List Char) (R : Widget → Widget → Prop) (descend : Call → Except Fault Widget) : Prop :=
  ∀ (call call' : Call) (w : Swap), call'.name = call.name → w.Joins core call.arguments call'.arguments →
    Ties R (descend call) (descend call')

theorem Entry.positional_cons (entry : Entry) (entries : List Entry) :
    positional (entry :: entries) = match entry.key? with
      | none => entry.value :: positional entries
      | some _ => positional entries := by
  obtain ⟨key?, value⟩ := entry
  cases key? <;> rfl

/-- Entries with the same keys, and values that are alike. -/
def Entry.Alike (core : List Char) (R : Widget → Widget → Prop) (e e' : Entry) : Prop :=
  e'.key? = e.key? ∧ e.value.Alike core R e'.value

section

variable {core : List Char} {R : Widget → Widget → Prop} {entries entries' : List Entry}

theorem Entry.alike_positional (h : List.Forall₂ (Entry.Alike core R) entries entries') :
    List.Forall₂ (Argument.Alike core R) (Entry.positional entries) (Entry.positional entries') := by
  induction h with
  | nil => exact .nil
  | @cons e e' _ _ he _ ih =>
    rw [Entry.positional_cons, Entry.positional_cons, he.1]
    split
    · exact .cons he.2 ih
    · exact ih

theorem Entry.alike_named (h : List.Forall₂ (Entry.Alike core R) entries entries') :
    (Entry.named entries).Alike (Argument.Alike core R) (Entry.named entries') := by
  refine Fields.Alike.ofList (List.rel_filterMap ?_ h)
  intro e e' he
  dsimp only
  rw [he.1]
  cases e.key? with
  | none => exact .none
  | some key => exact .some ⟨rfl, he.2⟩

end

namespace Expression.Swap

variable {core : List Char} {w v : Swap} {s s' : Cursor} {m m' n n' : Nat}

namespace Joins

/-- Lists are read item by item, each at places that correspond. -/
theorem ties_readAll {α α' : Type} {item : Cursor → Except Fault (α × Nat)}
    {item' : Cursor → Except Fault (α' × Nat)} {P : α → α' → Prop}
    (hi : ∀ {v : Swap} {s s' : Cursor}, v.Joins core s s' → v.Ready →
      (∀ c ∈ s.next?, isBlank c = false) →
        Ties (fun x x' => P x.1 x'.1 ∧ v.Paces s x.2 x'.2) (item s) (item' s'))
    (h : w.Joins core s s') {found : List α} {found' : List α'} (hf : List.Forall₂ P found found') :
    Ties (List.Forall₂ P) (readAll item found s) (readAll item' found' s') := by
  have hgap : ∀ {w : Swap} {s s' : Cursor}, w.Joins core s s' →
      ∃ v : Swap, v.Ready ∧ v.Joins core (separated s) (separated s') := by
    intro w s s' h
    obtain ⟨v, hv, hl⟩ := h.gap filler_separators
    exact ⟨v, hv, hl.joins⟩
  fun_induction readAll item found s generalizing w s' found' with
  | case1 found s t =>
    rename_i ha
    obtain ⟨v, hv, hj⟩ := hgap h
    rw [readAll_end ((hj.ahead_eq_nil_iff hv).mp ha)]
    exact .ok (List.rel_reverse hf)
  | case2 found s t c cs ha fault => exact .error _ _
  | case3 found s t c cs ha a n hr =>
    rename_i ih
    obtain ⟨v, hv, hj⟩ := hgap h
    have hhead : ∀ c ∈ (separated s).next?, isBlank c = false := by
      intro c hc
      rw [separated, Cursor.next?, Cursor.forward_ahead] at hc
      obtain ⟨cs, hcs⟩ := List.head?_eq_some_iff.mp hc
      have hsolid := solid_drop (f := fun c => isBlank c || c == ',') s.ahead
      rw [← separatorsLength, hcs, solid_cons_iff] at hsolid
      exact ((Bool.or_eq_false_iff).mp hsolid.1).1
    obtain ⟨⟨a', n'⟩, hr', ha', hp⟩ := hi hj hv hhead _ hr
    have hne : (separated s).ahead ≠ [] := ha ▸ List.cons_ne_nil c cs
    rw [readAll_step (mt (hj.ahead_eq_nil_iff hv).mpr hne) hr']
    obtain ⟨x, hx⟩ := hj.leads (hv.meets_max hp.meets fun hz => hp.first hz hne)
    exact ih hx.joins (.cons ha' hf)

variable {R : Widget → Widget → Prop} {descend : Call → Except Fault Widget}

theorem ties_readWidgets (hd : Respects core R descend) (h : w.Joins core s s') :
    Ties (List.Forall₂ R) (readWidgets descend s) (readWidgets descend s') := by
  refine (h.ties_readAll (P := Option.Rel R) (fun {v t t'} ht hv _ => ?_) .nil).bind fun found found' hf =>
    .ok (List.rel_filterMap (fun _ _ => id) hf)
  refine (ht.ties_readItem hv).bind ?_
  rintro ⟨call?, n⟩ ⟨call?', n'⟩ ⟨hcall, hp⟩
  cases hcall with
  | none => exact .ok ⟨.none, hp⟩
  | some hcall =>
    obtain ⟨hname, x, hx⟩ := hcall
    exact (hd _ _ x hname hx).bind fun u u' hu => .ok ⟨.some hu, hp⟩

theorem ties_readArgument (hd : Respects core R descend) {form form' : Form} (h : form.Alike core form') :
    Ties (Argument.Alike core R) (readArgument descend form) (readArgument descend form') := by
  cases h with
  | string text => exact .ok (.string text)
  | number text => exact .ok (.number text)
  | boolean value => exact .ok (.boolean value)
  | reference path => exact .ok (.reference path)
  | construction hk => exact .ok (.construction hk)
  | widget hname hw =>
    obtain ⟨w, hw⟩ := hw
    exact (hd _ _ w hname hw).bind fun u u' hu => .ok (.widget hu)
  | widgets hw =>
    obtain ⟨w, hw⟩ := hw
    exact (ties_readWidgets hd hw).bind fun us us' hus => .ok (.widgets hus)
  | raw hk => exact .ok (.raw hk)

/-- The key of an entry is the same in both texts, or missing in both. -/
theorem entryLead (h : w.Joins core s s') (hr : w.Ready) (hs : ∀ c ∈ s.next?, isBlank c = false) :
    (entryLead s').1 = (entryLead s).1 ∧
      (∀ c ∈ (s.forward (entryLead s).2).next?, isBlank c = false) ∧
        ∃ v : Swap, v.Ready ∧ w.Leads core v s s' (entryLead s).2 (WidgetJsx.entryLead s').2 := by
  unfold WidgetJsx.entryLead
  cases hk : Expression.readKey? s with
  | some entry =>
    obtain ⟨key, n⟩ := entry
    obtain ⟨n', hk', v, hv, hl⟩ := h.readKey? hk
    rw [hk']
    refine ⟨rfl, ?_, v, hv, hl⟩
    obtain ⟨-, -, t, rfl, -, -, rfl⟩ := readKey?_eq_some_iff.mp hk
    dsimp only
    rw [← Cursor.forward_forward s (_ + 1), ← Cursor.forward_forward s _ 1, Cursor.next?,
      Cursor.forward_ahead]
    exact (solid_drop _).head
  | none =>
    have hk' : Expression.readKey? s' = none := by
      cases hs' : Expression.readKey? s' with
      | none => rfl
      | some entry =>
        obtain ⟨n, hn, -⟩ := h.symm.readKey? hs'
        rw [hk] at hn
        cases hn
    rw [hk']
    refine ⟨rfl, by rwa [Cursor.forward_zero], w, hr, ?_, fun k k' hm => ?_⟩
    · rwa [Cursor.forward_zero, Cursor.forward_zero]
    · rw [Cursor.forward_zero] at hm
      simpa only [Nat.zero_add] using hm

theorem ties_readEntries (hd : Respects core R descend) (h : w.Joins core s s') :
    Ties (List.Forall₂ (Entry.Alike core R)) (readEntries descend s) (readEntries descend s') := by
  refine h.ties_readAll (fun {v t t'} ht hv hhead => ?_) .nil
  obtain ⟨hkey, hvalue, x, hx, hl⟩ := ht.entryLead hv hhead
  rw [readEntry_eq, readEntry_eq]
  refine (hl.joins.ties_readForm hx hvalue).bind fun a a' ha => ?_
  exact (ties_readArgument hd ha.1).bind fun u u' hu => .ok ⟨⟨hkey, hu⟩, hl.paces hv ha.2⟩

/-- The text in front of the other arguments is the same in both texts, or missing in both. -/
theorem ties_readLeadingText? {call call' : Call} (hname : call'.name = call.name)
    (h : w.Joins core call.arguments call'.arguments) :
    Ties (Option.Rel fun x x' => x'.1 = x.1 ∧ ∃ v : Swap, v.Ready ∧ v.Joins core x.2 x'.2)
      (readLeadingText? call) (readLeadingText? call') := by
  obtain ⟨v, hv, hl⟩ := h.trivia
  have hj := hl.joins
  simp only [readLeadingText?]
  refine .ite (by rw [hname, hj.startsString]) (fun hc => ?_) fun _ => .ok .none
  have hstring := ((Bool.and_eq_true _ _).mp hc).2
  cases hn : stringLength? (call.arguments.forward (triviaLength call.arguments.ahead)).ahead with
  | none => exact .error _ _
  | some n =>
    obtain ⟨hn', htext, hm⟩ := hj.string hstring hn
    obtain ⟨x, hx⟩ := hj.leads hm
    obtain ⟨y, hy, hgap⟩ := hx.joins.trivia
    rw [hn']
    exact .ok (.some ⟨htext, y, hy, hgap.joins⟩)

theorem ties_readCall (h : w.Joins core s s') :
    Ties (fun x x' => x'.1.name = x.1.name ∧ (∃ v : Swap, v.Joins core x.1.arguments x'.1.arguments) ∧
      ∃ v : Swap, v.Joins core x.2 x'.2) (readCall s) (readCall s') := by
  rintro ⟨call, rest⟩ hc
  obtain ⟨n, hcall, rfl⟩ := readCall_eq_ok_iff.mp hc
  obtain ⟨x, -, hx⟩ := h.trivia
  obtain ⟨y, -, hy⟩ := hx.joins.keyword
  obtain ⟨call', n', hcall', hname, hm, hargs⟩ := hy.joins.callAt hcall
  obtain ⟨z, hz⟩ := hy.joins.leads hm
  exact ⟨(call', _), readCall_eq_ok_iff.mpr ⟨n', hcall', rfl⟩, hname, hargs, z, hz.joins⟩

theorem expectEnd_eq_ok (h : w.Joins core s s') (he : expectEnd s = .ok ()) : expectEnd s' = .ok () := by
  obtain ⟨v, hv, hl⟩ := h.gap filler_terminators
  have hend : ∀ t : Cursor, expectEnd t = .ok () ↔
      (t.forward (gapLength (fun c => isBlank c || c == ',' || c == ';') t.ahead)).ahead = [] := fun t => by
    rw [expectEnd_eq_ok_iff, Cursor.forward_ahead, List.drop_eq_nil_iff]
    rfl
  rw [hend] at he ⊢
  exact (hl.joins.ahead_eq_nil_iff hv).mp he

end Joins

end Expression.Swap

section

variable {core : List Char} {R : Widget → Widget → Prop} {descend : Call → Except Fault Widget}

open Swap

/-- Widgets that are read from calls with joined arguments are alike. -/
theorem Respects.readBody (hd : Respects core R descend) :
    Respects core (Widget.Alike core R) (readBody descend) := by
  intro call call' w hname h
  have hl := Joins.ties_readLeadingText? hname h
  cases hc : readLeadingText? call with
  | error fault =>
    rw [readBody_error hc]
    exact .error _ _
  | ok leading? =>
    obtain ⟨leading?', hc', hrel⟩ := hl leading? hc
    cases hrel with
    | none =>
      rw [readBody_split hc, readBody_split hc']
      refine (Joins.ties_readEntries hd h).bind fun entries entries' he => .ok ?_
      obtain ⟨hargs, hcontent⟩ := Content.alike_split (Entry.alike_named he)
      exact ⟨hname, hargs, rfl, hcontent⟩
    | @some x x' hx =>
      obtain ⟨text, rest⟩ := x
      obtain ⟨_, rest'⟩ := x'
      obtain ⟨rfl, v, hv, hj⟩ := hx
      rw [readBody_text hc, readBody_text hc']
      have hentries : Ties (List.Forall₂ (Entry.Alike core R))
          (if rest.next? = some ',' then readEntries descend (rest.forward 1) else .ok [])
          (if rest'.next? = some ',' then readEntries descend (rest'.forward 1) else .ok []) := by
        refine .ite (by rw [hj.next?_eq hv]) (fun hcomma => ?_) fun _ => .ok .nil
        obtain ⟨cs, hcs⟩ := List.head?_eq_some_iff.mp hcomma
        obtain ⟨x, hx⟩ := hj.leads (hj.meets_next hcomma (by decide) (by decide)
          ((mark_of_mem (by simp)).scans hcs []).edge)
        exact Joins.ties_readEntries hd hx.joins
      exact hentries.bind fun entries entries' he => .ok ⟨hname, Entry.alike_named he, rfl, .none⟩

/-- So are all widgets, whatever relation follows from being alike. -/
theorem respects_readWidget (hR : ∀ w w', Widget.Alike core R w w' → R w w') (allowed left : Nat) :
    Respects core R (readWidget allowed left) := by
  induction left with
  | zero => exact fun _ _ _ _ _ => .error _ _
  | succ left ih =>
    intro call call' w hname h u hu
    obtain ⟨u', hu', halike⟩ := ih.readBody call call' w hname h u hu
    exact ⟨u', hu', hR u u' halike⟩

end

end WidgetJsx
