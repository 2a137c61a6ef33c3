import WidgetJsx.Proofs.Balanced
import WidgetJsx.Proofs.Threshold

/-! Which widget calls a reader comes to, and how deep they nest. A list is read place by place, and
where its items stand does not depend on what is made of them. Reading a list with so many levels to
spend runs out of them only if calls nest deeper than that, and where nothing else can stop the
reading, whenever they do. -/

namespace WidgetJsx

open Expression Text

section

variable {α β : Type}

/-- The places where the items of the list at a cursor are read. `look` finds the length of each. -/
inductive Stops (look : Cursor → Except Fault (α × Nat)) : Cursor → Cursor → Prop
  | here {s : Cursor} : (separated s).ahead ≠ [] → Stops look s (separated s)
  | further {s t : Cursor} {a : α} {n : Nat} : (separated s).ahead ≠ [] →
      look (separated s) = .ok (a, n) → Stops look ((separated s).forward (max 1 n)) t → Stops look s t

/-- What `item` reads takes as many characters as `look` finds. -/
def Keeps (look : Cursor → Except Fault (β × Nat)) (item : Cursor → Except Fault (α × Nat)) : Prop :=
  ∀ t a n, item t = .ok (a, n) → ∃ b, look t = .ok (b, n)

variable {look : Cursor → Except Fault (β × Nat)} {item : Cursor → Except Fault (α × Nat)}
  {found as : List α} {s t : Cursor}

theorem Stops.exists_item (ht : Stops look s t) (hk : Keeps look item)
    (h : readAll item found s = .ok as) : ∃ a n, item t = .ok (a, n) := by
  induction ht generalizing found with
  | @here s hs =>
    cases hi : item (separated s) with
    | error fault =>
      rw [readAll_error hs hi] at h
      cases h
    | ok outcome => exact ⟨outcome.1, outcome.2, rfl⟩
  | @further s t b n hs hl _ ih =>
    cases hi : item (separated s) with
    | error fault =>
      rw [readAll_error hs hi] at h
      cases h
    | ok outcome =>
      obtain ⟨a, m⟩ := outcome
      obtain ⟨b', hb⟩ := hk _ _ _ hi
      obtain ⟨rfl, rfl⟩ := Prod.mk.inj (Except.ok.inj (hl.symm.trans hb))
      rw [readAll_step hs hi] at h
      exact ih h

/-- If a list is not read, that is due to the item at one of the stops. -/
theorem exists_stop_of_readAll_error (hk : Keeps look item) {fault : Fault}
    (h : readAll item found s = .error fault) : ∃ t, Stops look s t ∧ item t = .error fault := by
  fun_induction readAll item found s with
  | case1 found s s' hs => cases h
  | case2 found s s' c cs hs fault' hi =>
    cases h
    exact ⟨s', .here (hs ▸ List.cons_ne_nil c cs), hi⟩
  | case3 found s s' c cs hs a n hi ih =>
    obtain ⟨b, hb⟩ := hk _ _ _ hi
    obtain ⟨t, ht, hf⟩ := ih h
    exact ⟨t, .further (hs ▸ List.cons_ne_nil c cs) hb ht, hf⟩

end

/-- Among the entries at `s` stands a widget call, as a value or in a list of widgets. -/
inductive Lists (s : Cursor) (call : Call) : Prop
  | value {t : Cursor} {n : Nat} : Stops entryForm s t → entryForm t = .ok (.widget call, n) →
      Lists s call
  | item {t u items : Cursor} {m n : Nat} : Stops entryForm s t →
      entryForm t = .ok (.widgets items, m) → Stops readItem items u →
      readItem u = .ok (some call, n) → Lists s call

/-- Where the entries of a widget begin: behind the comma that follows a leading text, if there is one. -/
def entriesOf? (call : Call) : Option Cursor :=
  match readLeadingText? call with
  | .ok none => some call.arguments
  | .ok (some (_, rest)) => if rest.next? = some ',' then some (rest.forward 1) else none
  | .error _ => none

/-- Widget calls nest within one another among the entries at a cursor, deeper than so many levels. -/
inductive Deeper : Nat → Cursor → Prop
  | one {s : Cursor} {call : Call} : Lists s call → Deeper 0 s
  | more {s t : Cursor} {call : Call} {levels : Nat} : Lists s call → entriesOf? call = some t →
      Deeper levels t → Deeper (levels + 1) s

theorem error_bind {α β : Type} {x : Except Fault α} {f : α → Except Fault β} {fault : Fault}
    (h : (x >>= f) = .error fault) : x = .error fault ∨ ∃ a, x = .ok a ∧ f a = .error fault := by
  cases x with
  | error e =>
    cases h
    exact .inl rfl
  | ok a => exact .inr ⟨a, rfl, h⟩

section

variable {descend : Call → Except Fault Widget} {s : Cursor}

theorem keeps_readEntry (descend : Call → Except Fault Widget) :
    Keeps entryForm (readEntry descend) := by
  intro t entry n h
  rw [readEntry_bind] at h
  obtain ⟨⟨form, m⟩, hf, h⟩ := exists_of_bind_eq_ok h
  obtain ⟨value, -, h⟩ := exists_of_bind_eq_ok h
  cases h
  exact ⟨form, hf⟩

/-- Reads an item of a list of widgets, and the widget if it is one. -/
def readMember (descend : Call → Except Fault Widget) (s : Cursor) :
    Except Fault (Option Widget × Nat) :=
  readItem s >>= fun (call?, n) =>
    match call? with
    | none => .ok (none, n)
    | some call => descend call >>= fun w => .ok (some w, n)

theorem readWidgets_eq (items : Cursor) : readWidgets descend items =
    readAll (readMember descend) [] items >>= fun found => .ok (found.filterMap id) := rfl

theorem keeps_readMember (descend : Call → Except Fault Widget) :
    Keeps readItem (readMember descend) := by
  intro t w? n h
  obtain ⟨⟨call?, m⟩, hi, h⟩ := exists_of_bind_eq_ok h
  cases call? with
  | none =>
    cases h
    exact ⟨none, hi⟩
  | some call =>
    obtain ⟨w, -, h⟩ := exists_of_bind_eq_ok h
    cases h
    exact ⟨some call, hi⟩

theorem Lists.exists_widget {call : Call} (hl : Lists s call) {entries : List Entry}
    (h : readEntries descend s = .ok entries) : ∃ w, descend call = .ok w := by
  have hargument : ∀ {t form n}, Stops entryForm s t → entryForm t = .ok (form, n) →
      ∃ value, readArgument descend form = .ok value := by
    intro t form n ht hf
    obtain ⟨entry, m, he⟩ := ht.exists_item (keeps_readEntry descend) h
    rw [readEntry_bind, hf] at he
    obtain ⟨_, ⟨⟩, he⟩ := exists_of_bind_eq_ok he
    obtain ⟨value, hv, -⟩ := exists_of_bind_eq_ok he
    exact ⟨value, hv⟩
  cases hl with
  | value ht hf =>
    obtain ⟨value, hv⟩ := hargument ht hf
    obtain ⟨w, hw, -⟩ := exists_of_bind_eq_ok hv
    exact ⟨w, hw⟩
  | item ht hf hu hi =>
    obtain ⟨value, hv⟩ := hargument ht hf
    obtain ⟨ws, hws, -⟩ := exists_of_bind_eq_ok hv
    rw [readWidgets_eq] at hws
    obtain ⟨found, ha, -⟩ := exists_of_bind_eq_ok hws
    obtain ⟨w?, n, hm⟩ := hu.exists_item (keeps_readMember descend) ha
    rw [readMember, hi] at hm
    obtain ⟨_, ⟨⟩, hm⟩ := exists_of_bind_eq_ok hm
    obtain ⟨w, hw, -⟩ := exists_of_bind_eq_ok hm
    exact ⟨w, hw⟩

/-- If entries are not read because of a bound, one of the widget calls among them is not. -/
theorem exists_lists_of_readEntries_error {fault : Fault}
    (h : readEntries descend s = .error fault) (hb : fault.cause.Bounding) :
    ∃ call, Lists s call ∧ descend call = .error fault := by
  obtain ⟨t, ht, he⟩ := exists_stop_of_readAll_error (keeps_readEntry descend) h
  -- Forms and items fail because of the text, so the bound is met where a call is read.
  rw [readEntry_bind] at he
  rcases error_bind he with hf | ⟨⟨form, n⟩, hf, he⟩
  · rw [entryForm] at hf
    rcases error_bind hf with hf | ⟨_, -, hf⟩
    · exact absurd hb ((faultsOfText_readForm _).unbounded _ hf)
    · cases hf
  rcases error_bind he with ha | ⟨_, -, he⟩
  swap
  · cases he
  cases form with
  | widget call =>
    rcases error_bind ha with hd | ⟨_, -, ha⟩
    · exact ⟨call, .value ht hf, hd⟩
    · cases ha
  | widgets items =>
    rcases error_bind ha with hws | ⟨_, -, ha⟩
    swap
    · cases ha
    rw [readWidgets_eq] at hws
    rcases error_bind hws with hall | ⟨_, -, hws⟩
    swap
    · cases hws
    obtain ⟨u, hu, hm⟩ := exists_stop_of_readAll_error (keeps_readMember descend) hall
    rw [readMember] at hm
    rcases error_bind hm with hi | ⟨⟨call?, m⟩, hi, hm⟩
    · exact absurd hb ((faultsOfText_readItem _).unbounded _ hi)
    cases call? with
    | none => cases hm
    | some call =>
      rcases error_bind hm with hd | ⟨_, -, hm⟩
      · exact ⟨call, .item ht hf hu hi, hd⟩
      · cases hm
  | string | number | boolean | reference | construction | raw => cases ha

theorem exists_entries_of_readBody {call : Call} {w : Widget} (h : readBody descend call = .ok w)
    (hs : entriesOf? call = some s) : ∃ entries, readEntries descend s = .ok entries := by
  obtain ⟨leading?, hl, -⟩ := exists_of_bind_eq_ok h
  rw [entriesOf?, hl] at hs
  cases leading? with
  | none =>
    cases hs
    rw [readBody_split hl] at h
    obtain ⟨entries, he, -⟩ := exists_of_bind_eq_ok h
    exact ⟨entries, he⟩
  | some leading =>
    obtain ⟨text, rest⟩ := leading
    rw [readBody_text hl] at h
    obtain ⟨entries, he, -⟩ := exists_of_bind_eq_ok h
    by_cases hc : rest.next? = some ','
    · simp only [if_pos hc, Option.some.injEq] at hs
      subst hs
      rw [if_pos hc] at he
      exact ⟨entries, he⟩
    · simp [hc] at hs

theorem exists_entriesOf_of_readBody_error {call : Call} {fault : Fault}
    (h : readBody descend call = .error fault) (hb : fault.cause.Bounding) :
    ∃ s, entriesOf? call = some s ∧ readEntries descend s = .error fault := by
  cases hl : readLeadingText? call with
  | error fault' =>
    rw [readBody_error hl] at h
    cases h
    exact absurd hb ((faultsOfText_readLeadingText? _).unbounded _ hl)
  | ok leading? =>
    cases leading? with
    | none =>
      rw [readBody_split hl] at h
      rcases error_bind h with he | ⟨_, -, h⟩
      · exact ⟨call.arguments, by rw [entriesOf?, hl], he⟩
      · cases h
    | some leading =>
      obtain ⟨text, rest⟩ := leading
      rw [readBody_text hl] at h
      rcases error_bind h with he | ⟨_, -, h⟩
      · by_cases hc : rest.next? = some ','
        · rw [if_pos hc] at he
          exact ⟨rest.forward 1, by rw [entriesOf?, hl]; exact if_pos hc, he⟩
        · rw [if_neg hc] at he
          cases he
      · cases h

end

section

variable {allowed levels : Nat} {s : Cursor}

theorem deeper_of_readEntries {position : Position}
    (h : readEntries (readWidget allowed levels) s = .error ⟨position, .tooDeep allowed⟩) :
    Deeper levels s := by
  induction levels generalizing s with
  | zero =>
    obtain ⟨call, hl, -⟩ := exists_lists_of_readEntries_error h trivial
    exact .one hl
  | succ levels ih =>
    obtain ⟨call, hl, hd⟩ := exists_lists_of_readEntries_error h trivial
    obtain ⟨t, ht, he⟩ := exists_entriesOf_of_readBody_error hd trivial
    exact .more hl ht (ih he)

theorem Deeper.not_read (hd : Deeper levels s) (entries : List Entry) :
    readEntries (readWidget allowed levels) s ≠ .ok entries := by
  induction hd generalizing entries with
  | one hl =>
    intro h
    obtain ⟨w, hw⟩ := hl.exists_widget h
    cases hw
  | more hl ht _ ih =>
    intro h
    obtain ⟨w, hw⟩ := hl.exists_widget h
    obtain ⟨inner, he⟩ := exists_entries_of_readBody hw ht
    exact ih inner he

/-- Entries at a tame place are read, or else they nest too deep. -/
theorem Tame.readEntries_cases (h : Tame s) (allowed levels : Nat) :
    (¬ Deeper levels s ∧ ∃ entries,
        WidgetJsx.readEntries (readWidget allowed levels) s = .ok entries) ∨
      Deeper levels s ∧ ∃ position,
        WidgetJsx.readEntries (readWidget allowed levels) s = .error ⟨position, .tooDeep allowed⟩ := by
  rcases Tame.readEntries (soundOnTame_readWidget allowed levels) h with ⟨entries, he⟩ | ⟨position, he⟩
  · exact .inl ⟨fun hd => hd.not_read entries he, entries, he⟩
  · exact .inr ⟨deeper_of_readEntries he, position, he⟩

end

end WidgetJsx
