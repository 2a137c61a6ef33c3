import WidgetJsx.Proofs.FaultCause

/-! The bound on the depth is a threshold. Each text has a number of levels: with fewer to spend,
reading it runs out of levels, and with as many or more it comes to one outcome that no bound has a
part in. Readers that are put together from such readers turn at a threshold too, and a call is read
by readers of shorter calls. -/

namespace WidgetJsx

open Expression Text

/-- A bound stopped the reading, and not the text. -/
def Expression.Cause.Bounding : Cause → Prop
  | .tooLong _ _ | .tooDeep _ => True
  | _ => False

theorem Expression.Cause.OfText.not_bounding {cause : Cause} (h : cause.OfText) : ¬ cause.Bounding := by
  cases cause with
  | tooLong | tooDeep => exact False.elim h
  | callExpected | openingExpected | unclosedCall | unclosedList | unclosedString | notWidget
  | trailingText => exact id

/-- An outcome that no bound has a part in. -/
def Unbounded {α : Type} (x : Except Fault α) : Prop :=
  ∀ fault, x = .error fault → ¬ fault.cause.Bounding

section

variable {α : Type}

theorem unbounded_ok (a : α) : Unbounded (.ok a : Except Fault α) := faults_ok a

theorem unbounded_error {fault : Fault} (h : ¬ fault.cause.Bounding) :
    Unbounded (.error fault : Except Fault α) := faults_error h

theorem FaultsOfText.unbounded {x : Except Fault α} (h : FaultsOfText x) : Unbounded x :=
  fun fault he => (h fault he).not_bounding

end

/-- With `levels` to spend, or more, `x` comes to the outcome; with fewer the levels run out. -/
structure Turns {α : Type} (x : Nat → Nat → Except Fault α) (levels : Nat)
    (outcome : Except Fault α) : Prop where
  unbounded : Unbounded outcome
  enough : ∀ allowed left, levels ≤ left → x allowed left = outcome
  few : ∀ allowed left, left < levels →
    ∃ position, x allowed left = .error ⟨position, .tooDeep allowed⟩

/-- The outcomes of a reader, by the levels allowed and those left, turn at some threshold. -/
def Settles {α : Type} (x : Nat → Nat → Except Fault α) : Prop :=
  ∃ levels outcome, Turns x levels outcome

namespace Settles

variable {α β : Type}

theorem const {x : Except Fault α} (h : Unbounded x) : Settles fun _ _ => x :=
  ⟨0, x, h, fun _ _ _ => rfl, fun _ left hl => absurd hl (Nat.not_lt_zero left)⟩

theorem pure (a : α) : Settles fun _ _ => (.ok a : Except Fault α) := const (unbounded_ok a)

/-- A reader that runs another first needs as many levels as the one of the two that needs more. -/
theorem bind {x : Nat → Nat → Except Fault α} {f : α → Nat → Nat → Except Fault β} (hx : Settles x)
    (hf : ∀ a, Settles (f a)) : Settles fun allowed left => x allowed left >>= (f · allowed left) := by
  obtain ⟨m, outcome, hx⟩ := hx
  cases outcome with
  | error fault =>
    refine ⟨m, .error fault, unbounded_error (hx.unbounded fault rfl), fun allowed left hl => ?_,
      fun allowed left hl => ?_⟩
    · rw [hx.enough allowed left hl]
      rfl
    · obtain ⟨position, he⟩ := hx.few allowed left hl
      exact ⟨position, by rw [he]; rfl⟩
  | ok a =>
    obtain ⟨n, outcome, ha⟩ := hf a
    refine ⟨max m n, outcome, ha.unbounded, fun allowed left hl => ?_, fun allowed left hl => ?_⟩
    · rw [hx.enough allowed left (by omega)]
      exact ha.enough allowed left (by omega)
    · by_cases hm : left < m
      · obtain ⟨position, he⟩ := hx.few allowed left hm
        exact ⟨position, by rw [he]; rfl⟩
      · rw [hx.enough allowed left (by omega)]
        exact ha.few allowed left (by omega)

/-- A first step that no bound has a part in only says how reading goes on. -/
theorem after {x : Except Fault α} {f : α → Nat → Nat → Except Fault β} (hx : Unbounded x)
    (hf : ∀ a, x = .ok a → Settles (f a)) : Settles fun allowed left => x >>= (f · allowed left) := by
  cases x with
  | error fault => exact const (unbounded_error (hx fault rfl))
  | ok a => exact hf a rfl

theorem readAll {item : Nat → Nat → Cursor → Except Fault (α × Nat)} {s : Cursor}
    (h : ∀ t : Cursor, t.ahead.length ≤ s.ahead.length → Settles fun allowed left => item allowed left t)
    (found : List α) :
    Settles fun allowed left => Expression.readAll (item allowed left) found s := by
  -- By induction on what is left of the text, of which each item takes something.
  induction hl : s.ahead.length using Nat.strongRecOn generalizing s found with
  | ind l ih =>
    have hle : (separated s).ahead.length ≤ s.ahead.length := by
      simp only [separated, Cursor.forward_ahead, List.length_drop]
      omega
    by_cases hs : (separated s).ahead = []
    · simp only [readAll_end hs]
      exact pure _
    · have hpos : 0 < (separated s).ahead.length := List.length_pos_iff.mpr hs
      have hstep : ∀ allowed left, Expression.readAll (item allowed left) found s =
          item allowed left (separated s) >>= fun outcome =>
            Expression.readAll (item allowed left) (outcome.1 :: found)
              ((separated s).forward (max 1 outcome.2)) := by
        intro allowed left
        cases hi : item allowed left (separated s) with
        | error fault => exact readAll_error hs hi
        | ok found => exact readAll_step hs hi
      simp only [hstep]
      refine (h _ hle).bind ?_
      rintro ⟨a, n⟩
      have hlt : ((separated s).forward (max 1 n)).ahead.length < s.ahead.length := by
        rw [Cursor.forward_ahead, List.length_drop]
        omega
      have hrest := ih _ (hl ▸ hlt) (s := (separated s).forward (max 1 n))
        (fun t ht => h t (by omega)) (a :: found) rfl
      exact hrest

end Settles

theorem Expression.Encloses.length_lt {s inside : Cursor} {n : Nat} (h : Encloses s inside n)
    {c k : Char} (hc : s.next? = some c) (hk : closerOf? c = some k) :
    inside.ahead.length < s.ahead.length := by
  obtain ⟨cs, ha⟩ := List.head?_eq_some_iff.mp hc
  obtain ⟨-, -, rest, he⟩ := h.ahead_eq ha hk
  rw [he]
  simp only [List.length_cons, List.length_append]
  omega

theorem Expression.CallAt.length_lt {s : Cursor} {call : Call} {n : Nat} (h : CallAt s call n) :
    call.arguments.ahead.length < s.ahead.length := by
  obtain ⟨-, -, ho, m, he, -⟩ := h
  exact (he.length_lt ho (k := ')') rfl).trans_le (s.forward_suffix _).length_le

section

variable {s : Cursor} {n : Nat}

theorem length_lt_of_readForm {call : Call} (h : readForm s = .ok (.widget call, n)) :
    call.arguments.ahead.length < s.ahead.length := by
  cases formAt_of_readForm h with
  | widget hc _ => exact hc.length_lt.trans_le (s.forward_suffix _).length_le

theorem items_length_lt_of_readForm {items : Cursor} (h : readForm s = .ok (.widgets items, n)) :
    items.ahead.length < s.ahead.length := by
  cases formAt_of_readForm h with
  | list hn he => exact (he.length_lt hn (k := ']') rfl).trans_le (s.forward_suffix _).length_le
  | typed _ ht =>
    obtain ⟨list, ht, he⟩ := ht
    obtain ⟨rfl, hn⟩ := typedList?_cases ht
    exact (he.length_lt hn (k := ']') rfl).trans_le
      ((Cursor.forward_suffix _ _).trans (s.forward_suffix _)).length_le

theorem length_lt_of_readItem {call : Call} (h : readItem s = .ok (some call, n)) :
    call.arguments.ahead.length < s.ahead.length := by
  obtain ⟨-, m, hc, -⟩ := callAt_of_readItem h
  exact hc.length_lt.trans_le (s.forward_suffix _).length_le

end

section

variable {descend : Nat → Nat → Call → Except Fault Widget} {size : Nat}

/-- Calls whose argument lists are shorter than `size` are read with a threshold. -/
def SettlesBelow (size : Nat) (descend : Nat → Nat → Call → Except Fault Widget) : Prop :=
  ∀ call : Call, call.arguments.ahead.length < size →
    Settles fun allowed left => descend allowed left call

namespace SettlesBelow

theorem readWidgets (h : SettlesBelow size descend) {items : Cursor} (hi : items.ahead.length ≤ size) :
    Settles fun allowed left => WidgetJsx.readWidgets (descend allowed left) items := by
  refine Settles.bind (Settles.readAll (fun t ht => ?_) []) fun _ => .pure _
  refine .after (faultsOfText_readItem t).unbounded fun (call?, n) hr => ?_
  cases call? with
  | none => exact .pure _
  | some call =>
    have hlt := length_lt_of_readItem hr
    exact (h call (by omega)).bind fun _ => .pure _

theorem readEntries (h : SettlesBelow size descend) {s : Cursor} (hs : s.ahead.length ≤ size) :
    Settles fun allowed left => WidgetJsx.readEntries (descend allowed left) s := by
  refine Settles.readAll (fun t ht => ?_) []
  simp only [readEntry_eq]
  have hle := (t.forward_suffix (entryLead t).2).length_le
  refine .after (faultsOfText_readForm _).unbounded fun (form, n) hf => .bind ?_ fun _ => .pure _
  cases form with
  | widget call =>
    have hlt := length_lt_of_readForm hf
    exact (h call (by omega)).bind fun _ => .pure _
  | widgets items =>
    have hlt := items_length_lt_of_readForm hf
    exact (h.readWidgets (by omega)).bind fun _ => .pure _
  | string | number | boolean | reference | construction | raw => exact .pure _

theorem readBody {call : Call} (h : SettlesBelow call.arguments.ahead.length descend) :
    Settles fun allowed left => WidgetJsx.readBody (descend allowed left) call := by
  cases hl : readLeadingText? call with
  | error fault =>
    simp only [readBody_error hl]
    exact .const (unbounded_error ((faultsOfText_readLeadingText? call).unbounded fault hl))
  | ok leading? =>
    cases leading? with
    | none =>
      simp only [readBody_split hl]
      exact (h.readEntries (Nat.le_refl _)).bind fun _ => .pure _
    | some leading =>
      obtain ⟨text, rest⟩ := leading
      obtain ⟨-, k, rfl⟩ := readLeadingText?_cases hl
      simp only [readBody_text hl]
      refine .bind ?_ fun _ => .pure _
      split
      · rw [Cursor.forward_forward]
        exact h.readEntries (call.arguments.forward_suffix _).length_le
      · exact .pure _

end SettlesBelow

end

theorem settles_readWidget (call : Call) :
    Settles fun allowed left => readWidget allowed left call := by
  -- The arguments of a call inside are shorter, so it settles first.
  induction hl : call.arguments.ahead.length using Nat.strongRecOn generalizing call with
  | ind l ih =>
    have hbelow : SettlesBelow call.arguments.ahead.length readWidget :=
      fun inner hlt => ih _ (hl ▸ hlt) inner rfl
    obtain ⟨levels, outcome, hb⟩ := hbelow.readBody
    refine ⟨levels + 1, outcome, hb.unbounded, fun allowed left hle => ?_, fun allowed left hlt => ?_⟩
    · obtain ⟨left, rfl⟩ : ∃ n, left = n + 1 := ⟨left - 1, by omega⟩
      exact hb.enough allowed left (by omega)
    · cases left with
      | zero => exact ⟨_, rfl⟩
      | succ left => exact hb.few allowed left (by omega)

namespace Widget

theorem depth_le_of_readWidget {allowed left : Nat} {call : Call} {w : Widget}
    (h : readWidget allowed left call = .ok w) : w.depth ≤ left := by
  induction left generalizing call w with
  | zero => cases h
  | succ left ih =>
    refine depth_le_succ_iff.mpr fun v hv => ?_
    obtain ⟨inner, -, hd⟩ := occurs_of_mem_held h hv
    exact ih hd

theorem depth_le_of_read {limits : Limits} {source : String} {root : Widget}
    (h : Widget.read limits source = .ok root) : root.depth ≤ limits.depth := by
  obtain ⟨-, call, -, -, -, hr, -⟩ := read_eq_ok_iff.mp h
  exact depth_le_of_readWidget hr

/-- Reading a source that is not too long, by the levels allowed and those left. -/
theorem settles_read (source : String) : ∃ x : Nat → Nat → Except Fault Widget, Settles x ∧
    ∀ limits : Limits, source.utf8ByteSize ≤ limits.bytes →
      Widget.read limits source = x limits.depth limits.depth := by
  refine ⟨fun allowed left => readCall (.ofList source.toList) >>= fun found =>
    if isDotted found.1.name then .error ⟨.start, .notWidget found.1.name⟩
    else readWidget allowed left found.1 >>= fun w => expectEnd found.2 >>= fun _ => .ok w,
    ?_, fun limits hb => read_bind hb⟩
  refine (Settles.const (faultsOfText_readCall (.ofList source.toList)).unbounded).bind fun found => ?_
  split
  · exact .const (unbounded_error id)
  · have hend := (faultsOfText_expectEnd found.2).unbounded
    exact (settles_readWidget found.1).bind fun w =>
      .const (Faults.bind hend fun _ _ => unbounded_ok w)

/-- Each source has a number of levels: with fewer allowed it is nested too deep, and with as many or
more there is one outcome, which no bound has a part in. A tree has no more levels than that, so higher
bounds make no difference to what is read, and what is read is no deeper than is allowed. -/
theorem read_threshold (source : String) :
    (∃ (levels : Nat) (outcome : Except Fault Widget),
      (∀ fault, outcome = .error fault → ¬ fault.cause.Bounding) ∧
      (∀ limits : Limits, source.utf8ByteSize ≤ limits.bytes →
        (levels ≤ limits.depth → Widget.read limits source = outcome) ∧
        (limits.depth < levels → ∃ position,
          Widget.read limits source = .error ⟨position, .tooDeep limits.depth⟩)) ∧
      ∀ root, outcome = .ok root → root.depth ≤ levels) ∧
    ∀ (limits : Limits) (root : Widget), Widget.read limits source = .ok root →
      root.depth ≤ limits.depth ∧ ∀ more : Limits, limits.depth ≤ more.depth →
        limits.bytes ≤ more.bytes → Widget.read more source = .ok root := by
  obtain ⟨x, ⟨levels, outcome, ht⟩, hx⟩ := settles_read source
  refine ⟨⟨levels, outcome, ht.unbounded, fun limits hb => ?_, fun root hr => ?_⟩,
    fun limits root hr => ⟨depth_le_of_read hr, fun more hd hb => ?_⟩⟩
  · rw [hx limits hb]
    exact ⟨ht.enough _ _, ht.few _ _⟩
  · have he : Widget.read ⟨levels, source.utf8ByteSize⟩ source = .ok root := by
      rw [hx _ (Nat.le_refl _), ← hr]
      exact ht.enough levels levels (Nat.le_refl _)
    exact depth_le_of_read he
  · have hsize : source.utf8ByteSize ≤ limits.bytes := (read_eq_ok_iff.mp hr).1
    -- With fewer levels than it takes, nothing would have been read.
    have hlevels : levels ≤ limits.depth := by
      by_contra hlt
      obtain ⟨position, he⟩ := ht.few limits.depth limits.depth (by omega)
      rw [hx limits hsize, he] at hr
      cases hr
    rw [hx limits hsize, ht.enough _ _ hlevels] at hr
    rw [hx more (by omega), ht.enough _ _ (by omega), hr]

end Widget

end WidgetJsx
