import WidgetJsx.Proofs.Form
import WidgetJsx.Proofs.Tree

/-! What the readers of arguments and widgets find: each entry comes from a form, and each widget held
from a call, somewhere ahead of the place where reading began. -/

namespace WidgetJsx

open Expression Text

/-- A widget call ahead of `s`, on its own or as an item of a list. -/
inductive Occurs (s : Cursor) (call : Call) : Prop
  | value {k n : Nat} : readForm (s.forward k) = .ok (.widget call, n) → Occurs s call
  | item {k n j m : Nat} {items : Cursor} : readForm (s.forward k) = .ok (.widgets items, n) →
      readItem (items.forward j) = .ok (some call, m) → Occurs s call

theorem Occurs.of_forward {s : Cursor} {call : Call} {k : Nat} (h : Occurs (s.forward k) call) :
    Occurs s call := by
  cases h with
  | value h => exact .value (by rwa [Cursor.forward_forward] at h)
  | item h hi => exact .item (by rwa [Cursor.forward_forward] at h) hi

theorem Occurs.callAt {s : Cursor} {call : Call} (h : Occurs s call) :
    Widget.isWidgetName call.name = true ∧ ∃ t n, CallAt t call n := by
  cases h with
  | value h =>
    cases formAt_of_readForm h with
    | widget hc hw => exact ⟨hw, _, _, hc⟩
  | item _ hi =>
    obtain ⟨hw, n, hc, -⟩ := callAt_of_readItem hi
    exact ⟨hw, _, n, hc⟩

section

variable {descend : Call → Except Fault Widget}

theorem exists_of_mem_readWidgets {items : Cursor} {ws : List Widget}
    (h : readWidgets descend items = .ok ws) {v : Widget} (hv : v ∈ ws) :
    ∃ j call m, readItem (items.forward j) = .ok (some call, m) ∧ descend call = .ok v := by
  obtain ⟨found, hf, h⟩ := exists_of_bind_eq_ok h
  cases h
  obtain ⟨w?, hm, rfl⟩ := List.mem_filterMap.mp hv
  obtain ⟨j, m, hi⟩ := (exists_of_mem_readAll hf hm).resolve_left List.not_mem_nil
  obtain ⟨⟨call?, n⟩, hr, hi⟩ := exists_of_bind_eq_ok hi
  cases call? with
  | none => cases hi
  | some call =>
    obtain ⟨w, hd, hi⟩ := exists_of_bind_eq_ok hi
    cases hi
    exact ⟨j, call, _, hr, hd⟩

theorem exists_of_mem_readArgument {form : Form} {a : Argument Widget}
    (h : readArgument descend form = .ok a) {v : Widget} (hv : v ∈ a.held) :
    (∃ call, form = .widget call ∧ descend call = .ok v) ∨
      ∃ items j call m, form = .widgets items ∧
        readItem (items.forward j) = .ok (some call, m) ∧ descend call = .ok v := by
  cases form with
  | widget call =>
    obtain ⟨w, hd, h⟩ := exists_of_bind_eq_ok h
    cases h
    obtain rfl := List.mem_singleton.mp hv
    exact .inl ⟨call, rfl, hd⟩
  | widgets items =>
    obtain ⟨ws, hw, h⟩ := exists_of_bind_eq_ok h
    cases h
    obtain ⟨j, call, m, hr, hd⟩ := exists_of_mem_readWidgets hw hv
    exact .inr ⟨items, j, call, m, rfl, hr, hd⟩
  | string | number | boolean | reference | construction | raw =>
    cases h
    exact absurd hv List.not_mem_nil

/-- The form of an argument that is not made of widgets. -/
def Argument.form? : Argument Widget → Option Form
  | .string text => some (.string text)
  | .number text => some (.number text)
  | .boolean value => some (.boolean value)
  | .reference path => some (.reference path)
  | .construction text => some (.construction text)
  | .widget _ | .widgets _ => none
  | .raw text => some (.raw text)

/-- Such an argument is read from its own form only. -/
theorem form_of_readArgument {form form' : Form} {a : Argument Widget}
    (h : readArgument descend form = .ok a) (hf : a.form? = some form') : form = form' := by
  cases form with
  | widget call =>
    obtain ⟨w, -, h⟩ := exists_of_bind_eq_ok h
    cases h
    cases hf
  | widgets items =>
    obtain ⟨ws, -, h⟩ := exists_of_bind_eq_ok h
    cases h
    cases hf
  | string | number | boolean | reference | construction | raw =>
    cases h
    exact Option.some.inj hf

/-- The key of the entry at a place, if it has one, and the length up to the value. -/
def entryLead (s : Cursor) : Option String × Nat :=
  match readKey? s with
  | some (key, n) => (some key, n)
  | none => (none, 0)

theorem readEntry_eq (s : Cursor) : readEntry descend s =
    readForm (s.forward (entryLead s).2) >>= fun (form, n) =>
      readArgument descend form >>= fun value =>
        .ok (⟨(entryLead s).1, value⟩, (entryLead s).2 + n) := rfl

/-- The form of an entry's value, and the length of the entry. -/
def entryForm (s : Cursor) : Except Fault (Form × Nat) :=
  readForm (s.forward (entryLead s).2) >>= fun (form, n) => .ok (form, (entryLead s).2 + n)

theorem readEntry_bind (s : Cursor) : readEntry descend s = entryForm s >>= fun (form, n) =>
    readArgument descend form >>= fun value => .ok (⟨(entryLead s).1, value⟩, n) := by
  rw [readEntry_eq, entryForm]
  cases readForm (s.forward (entryLead s).2) <;> rfl

theorem isName_of_entryLead {s : Cursor} {key : String} (h : (entryLead s).1 = some key) :
    IsName key.toList := by
  unfold entryLead at h
  split at h
  · rename_i hk
    cases h
    exact isName_of_readKey? hk
  · cases h

theorem exists_of_mem_readEntries {s : Cursor} {entries : List Entry}
    (h : readEntries descend s = .ok entries) {entry : Entry} (he : entry ∈ entries) :
    (∀ key, entry.key? = some key → IsName key.toList) ∧
      ∃ k form n, readForm (s.forward k) = .ok (form, n) ∧
        readArgument descend form = .ok entry.value := by
  obtain ⟨k, n, hr⟩ := (exists_of_mem_readAll h he).resolve_left List.not_mem_nil
  rw [readEntry_eq] at hr
  obtain ⟨⟨form, m⟩, hf, hr⟩ := exists_of_bind_eq_ok hr
  obtain ⟨a, ha, hr⟩ := exists_of_bind_eq_ok hr
  cases hr
  rw [Cursor.forward_forward] at hf
  exact ⟨fun key hk => isName_of_entryLead hk, _, form, m, hf, ha⟩

theorem occurs_of_mem_readEntries {s : Cursor} {entries : List Entry}
    (h : readEntries descend s = .ok entries) {entry : Entry} (he : entry ∈ entries) {v : Widget}
    (hv : v ∈ entry.value.held) : ∃ call, Occurs s call ∧ descend call = .ok v := by
  obtain ⟨-, k, form, n, hf, ha⟩ := exists_of_mem_readEntries h he
  rcases exists_of_mem_readArgument ha hv with ⟨call, rfl, hd⟩ | ⟨items, j, call, m, rfl, hi, hd⟩
  · exact ⟨call, .value hf, hd⟩
  · exact ⟨call, .item hf hi, hd⟩

theorem mem_named {entries : List Entry} {key : String} {value : Argument Widget}
    (h : (key, value) ∈ (Entry.named entries).entries) : ⟨some key, value⟩ ∈ entries := by
  obtain ⟨⟨key?, value'⟩, hm, he⟩ := List.mem_filterMap.mp (Fields.mem_ofList h)
  obtain ⟨key', rfl, hk⟩ := Option.map_eq_some_iff.mp he
  cases hk
  exact hm

theorem nodup_named (entries : List Entry) : (Entry.named entries).keys.Nodup :=
  Fields.nodup_ofList _

theorem readLeadingText?_cases {call : Call} {text : String} {rest : Cursor}
    (h : readLeadingText? call = .ok (some (text, rest))) :
    Widget.isTextName call.name = true ∧ ∃ k, rest = call.arguments.forward k := by
  simp only [readLeadingText?] at h
  split at h
  · rename_i hs
    split at h
    · cases h
      simp only [Cursor.forward_forward]
      exact ⟨(Bool.and_eq_true _ _ ▸ hs).1, _, rfl⟩
    · cases h
  · cases h

theorem readBody_text {call : Call} {text : String} {rest : Cursor}
    (h : readLeadingText? call = .ok (some (text, rest))) : readBody descend call =
      (if rest.next? = some ',' then readEntries descend (rest.forward 1) else .ok []) >>=
        fun entries => .ok ⟨call.name, Entry.named entries, some text, .none⟩ := by
  unfold readBody
  rw [h]
  change (if rest.next? = some ',' then _ else _) = _
  split <;> rfl

theorem readBody_split {call : Call} (h : readLeadingText? call = .ok none) :
    readBody descend call = readEntries descend call.arguments >>= fun entries =>
      .ok ⟨call.name, (Content.split (Entry.named entries)).1, none,
        (Content.split (Entry.named entries)).2⟩ := by
  unfold readBody
  rw [h]
  rfl

theorem readBody_error {call : Call} {fault : Fault} (h : readLeadingText? call = .error fault) :
    readBody descend call = .error fault := by
  unfold readBody
  rw [h]
  rfl

/-- What a widget is made of: the entries behind a leading text, or all entries less the content. -/
theorem readBody_cases {call : Call} {w : Widget} (h : readBody descend call = .ok w) :
    ∃ k entries, (readEntries descend (call.arguments.forward k) = .ok entries ∨ entries = []) ∧
      ((Widget.isTextName call.name = true ∧
          ∃ text, w = ⟨call.name, Entry.named entries, some text, .none⟩) ∨
        w = ⟨call.name, (Content.split (Entry.named entries)).1, none,
          (Content.split (Entry.named entries)).2⟩) := by
  obtain ⟨leading?, hl, -⟩ := exists_of_bind_eq_ok h
  cases leading? with
  | none =>
    rw [readBody_split hl] at h
    obtain ⟨entries, he, h⟩ := exists_of_bind_eq_ok h
    cases h
    exact ⟨0, entries, .inl (by rwa [Cursor.forward_zero]), .inr rfl⟩
  | some leading =>
    obtain ⟨text, rest⟩ := leading
    rw [readBody_text hl] at h
    obtain ⟨ht, k, rfl⟩ := readLeadingText?_cases hl
    obtain ⟨entries, he, h⟩ := exists_of_bind_eq_ok h
    cases h
    split at he
    · rw [Cursor.forward_forward] at he
      exact ⟨_, entries, .inl he, .inl ⟨ht, text, rfl⟩⟩
    · cases he
      exact ⟨0, [], .inr rfl, .inl ⟨ht, text, rfl⟩⟩

theorem mem_held_split {arguments : Fields (Argument Widget)} {name : String} {v : Widget}
    (h : v ∈ Widget.held ⟨name, (Content.split arguments).1, none, (Content.split arguments).2⟩) :
    ∃ entry ∈ arguments.entries, v ∈ entry.2.held := by
  rcases List.mem_append.mp h with h | h
  · obtain ⟨entry, hm, hv⟩ := List.mem_flatMap.mp h
    exact ⟨entry, Content.mem_split hm, hv⟩
  · exact Content.exists_entry_of_mem_split h

/-- Each widget that a widget holds is read from a call that occurs among its arguments. -/
theorem occurs_of_mem_held {call : Call} {w : Widget} (h : readBody descend call = .ok w)
    {v : Widget} (hv : v ∈ w.held) : ∃ inner, Occurs call.arguments inner ∧ descend inner = .ok v := by
  obtain ⟨k, entries, he, hw⟩ := readBody_cases h
  obtain ⟨⟨key, value⟩, hm, hv⟩ : ∃ entry ∈ (Entry.named entries).entries, v ∈ entry.2.held := by
    rcases hw with ⟨-, text, rfl⟩ | rfl
    · obtain ⟨entry, hm, hv⟩ := List.mem_flatMap.mp ((List.mem_append.mp hv).resolve_right
        List.not_mem_nil)
      exact ⟨entry, hm, hv⟩
    · exact mem_held_split hv
  rcases he with he | rfl
  · obtain ⟨inner, ho, hd⟩ := occurs_of_mem_readEntries he (mem_named hm) hv
    exact ⟨inner, ho.of_forward, hd⟩
  · exact absurd (mem_named hm) List.not_mem_nil

end

theorem readWidget_eq_ok {allowed left : Nat} {call : Call} {w : Widget}
    (h : readWidget allowed left call = .ok w) :
    ∃ n, left = n + 1 ∧ readBody (readWidget allowed n) call = .ok w := by
  cases left with
  | zero => cases h
  | succ n => exact ⟨n, rfl, h⟩

theorem name_of_readBody {descend : Call → Except Fault Widget} {call : Call} {w : Widget}
    (h : readBody descend call = .ok w) : w.name = call.name := by
  obtain ⟨-, -, -, ⟨-, -, rfl⟩ | rfl⟩ := readBody_cases h <;> rfl

theorem Limits.open_eq_ok_iff {limits : Limits} {source : String} {s : Cursor} :
    limits.open source = .ok s ↔
      source.utf8ByteSize ≤ limits.bytes ∧ s = .ofList source.toList := by
  unfold Limits.open
  split
  · simp only [reduceCtorEq, false_iff]
    omega
  · rw [Except.ok.injEq, eq_comm, iff_and_self]
    omega

section

variable {limits : Limits} {source : String} {call : Call} {rest : Cursor} {fault : Fault}

/-- A source that is not too long is read from its first call on. -/
theorem Widget.read_bind (hb : source.utf8ByteSize ≤ limits.bytes) : Widget.read limits source =
    readCall (.ofList source.toList) >>= fun (call, rest) =>
      if isDotted call.name then .error ⟨.start, .notWidget call.name⟩
      else readWidget limits.depth limits.depth call >>= fun w => expectEnd rest >>= fun _ => .ok w := by
  unfold Widget.read
  rw [Limits.open_eq_ok_iff.mpr ⟨hb, rfl⟩]
  rfl

theorem Construction.read_bind (hb : source.utf8ByteSize ≤ Limits.standard.bytes) :
    Construction.read source = readCall (.ofList source.toList) >>= fun (call, rest) =>
      readEntries (readWidget Limits.standard.depth Limits.standard.depth) call.arguments >>=
        fun entries => expectEnd rest >>= fun _ =>
          .ok ⟨call.name, Entry.positional entries, Entry.named entries⟩ := by
  unfold Construction.read
  simp only [Limits.open_eq_ok_iff.mpr ⟨hb, rfl⟩]
  rfl

theorem Widget.read_of_readCall (hb : source.utf8ByteSize ≤ limits.bytes)
    (hc : readCall (.ofList source.toList) = .ok (call, rest)) (hd : isDotted call.name = false) :
    Widget.read limits source = readWidget limits.depth limits.depth call >>= fun w =>
      expectEnd rest >>= fun _ => .ok w := by
  rw [read_bind hb, hc]
  exact if_neg (Bool.eq_false_iff.mp hd)

theorem Widget.read_of_readCall_error (hb : source.utf8ByteSize ≤ limits.bytes)
    (hc : readCall (.ofList source.toList) = .error fault) : Widget.read limits source = .error fault := by
  rw [read_bind hb, hc]
  rfl

theorem Widget.read_of_dotted (hb : source.utf8ByteSize ≤ limits.bytes)
    (hc : readCall (.ofList source.toList) = .ok (call, rest)) (hd : isDotted call.name = true) :
    Widget.read limits source = .error ⟨.start, .notWidget call.name⟩ := by
  rw [read_bind hb, hc]
  exact if_pos hd

theorem Construction.read_of_readCall (hb : source.utf8ByteSize ≤ Limits.standard.bytes)
    (hc : readCall (.ofList source.toList) = .ok (call, rest)) :
    Construction.read source =
      readEntries (readWidget Limits.standard.depth Limits.standard.depth) call.arguments >>=
        fun entries => expectEnd rest >>= fun _ =>
          .ok ⟨call.name, Entry.positional entries, Entry.named entries⟩ := by
  rw [read_bind hb, hc]
  rfl

end

theorem Construction.read_eq_ok_iff {source : String} {c : Construction} :
    Construction.read source = .ok c ↔ source.utf8ByteSize ≤ Limits.standard.bytes ∧
      ∃ call rest entries, readCall (.ofList source.toList) = .ok (call, rest) ∧
        readEntries (readWidget Limits.standard.depth Limits.standard.depth) call.arguments =
          .ok entries ∧
        expectEnd rest = .ok () ∧ c = ⟨call.name, Entry.positional entries, Entry.named entries⟩ := by
  constructor
  · intro h
    obtain ⟨s, ho, -⟩ := exists_of_bind_eq_ok h
    obtain ⟨hb, rfl⟩ := Limits.open_eq_ok_iff.mp ho
    rw [read_bind hb] at h
    obtain ⟨⟨call, rest⟩, hc, h⟩ := exists_of_bind_eq_ok h
    obtain ⟨entries, hr, h⟩ := exists_of_bind_eq_ok h
    obtain ⟨⟨⟩, he, h⟩ := exists_of_bind_eq_ok h
    cases h
    exact ⟨hb, call, rest, entries, hc, hr, he, rfl⟩
  · rintro ⟨hb, call, rest, entries, hc, hr, he, rfl⟩
    rw [read_of_readCall hb hc, hr]
    change (expectEnd rest >>= _) = _
    rw [he]
    rfl

theorem Widget.read_eq_ok_iff {limits : Limits} {source : String} {root : Widget} :
    Widget.read limits source = .ok root ↔ source.utf8ByteSize ≤ limits.bytes ∧
      ∃ call rest, readCall (.ofList source.toList) = .ok (call, rest) ∧
        isDotted call.name = false ∧ readWidget limits.depth limits.depth call = .ok root ∧
          expectEnd rest = .ok () := by
  constructor
  · intro h
    obtain ⟨s, ho, h⟩ := exists_of_bind_eq_ok h
    obtain ⟨hb, rfl⟩ := Limits.open_eq_ok_iff.mp ho
    obtain ⟨⟨call, rest⟩, hc, h⟩ := exists_of_bind_eq_ok h
    refine ⟨hb, call, rest, hc, ?_⟩
    simp only at h
    split at h
    · cases h
    · rename_i hd
      obtain ⟨w, hw, h⟩ := exists_of_bind_eq_ok h
      obtain ⟨⟨⟩, he, h⟩ := exists_of_bind_eq_ok h
      cases h
      exact ⟨Bool.eq_false_iff.mpr hd, hw, he⟩
  · rintro ⟨hb, call, rest, hc, hd, hw, he⟩
    rw [Widget.read_of_readCall hb hc hd, hw]
    change (expectEnd rest >>= _) = _
    rw [he]
    rfl

end WidgetJsx
