import WidgetJsx.Expression.Form
import WidgetJsx.Proofs.Cursor
import WidgetJsx.Proofs.Gap
import WidgetJsx.Proofs.Literal

/-! A scan as a relation between the places that it comes by. `Scans step state s n final` says that
a scan at `s` passes the next `n` characters and stands between two items then. -/

namespace WidgetJsx.Expression

open Text (Cursor)

theorem startsString_cons (previous c : Char) (cs : List Char) : startsString previous (c :: cs) =
    (isQuote c || (c == 'r' && cs.head?.any isQuote && !isNameChar previous)) := by
  by_cases hr : c = 'r'
  · subst hr
    cases cs with
    | nil => rfl
    | cons q cs => simp [startsString, isQuote]
  · rw [startsString.eq_def]
    split <;> simp_all

/-- A comment starts with these two characters. -/
def startsComment (c : Char) (cs : List Char) : Prop :=
  c = '/' ∧ (cs.head? = some '/' ∨ cs.head? = some '*')

theorem startsComment.append {c : Char} {u : List Char} (h : startsComment c u) (rest : List Char) :
    startsComment c (u ++ rest) := by
  refine ⟨h.1, ?_⟩
  cases u with
  | nil => simp [startsComment] at h
  | cons d u => exact h.2

theorem two_le_triviaLength {c : Char} {cs : List Char} (h : startsComment c cs) :
    2 ≤ triviaLength (c :: cs) := by
  obtain ⟨rfl, h⟩ := h
  rw [triviaLength, gapLength]
  rcases h with h | h <;> obtain ⟨ds, rfl⟩ := List.head?_eq_some_iff.mp h <;>
    exact le_gapLength_go _ 2 ds

namespace Item

variable {previous c : Char} {cs : List Char}

theorem at_eq_code_iff : Item.at previous c cs = .code ↔
    startsString previous (c :: cs) = false ∧ ¬ startsComment c cs := by
  unfold Item.at startsComment
  cases hs : startsString previous (c :: cs) with
  | true => cases stringLength? (c :: cs) <;> simp
  | false => simp

theorem at_eq_inert_iff {k : Nat} : Item.at previous c cs = .inert k ↔
    startsString previous (c :: cs) = true ∧ stringLength? (c :: cs) = some (k + 1) ∨
      startsString previous (c :: cs) = false ∧ startsComment c cs ∧
        triviaLength (c :: cs) = k + 1 := by
  have ht := @two_le_triviaLength c cs
  unfold Item.at
  cases hs : startsString previous (c :: cs) with
  | true =>
    cases hl : stringLength? (c :: cs) with
    | none => simp
    | some n =>
      have := two_le_of_stringLength? hs hl
      simp
      omega
  | false =>
    by_cases hc : startsComment c cs
    · have := ht hc
      rw [if_neg (by simp), if_pos (show _ ∧ _ from hc)]
      simp [hc]
      omega
    · rw [if_neg (by simp), if_neg (show ¬ (_ ∧ _) from hc)]
      simp [hc]

theorem le_length {k : Nat} (h : Item.at previous c cs = .inert k) : k ≤ cs.length := by
  rcases at_eq_inert_iff.mp h with ⟨hs, hl⟩ | ⟨-, -, hl⟩
  · have := two_le_of_stringLength? hs hl
    simp only [List.length_cons] at this
    omega
  · have : triviaLength (c :: cs) ≤ (c :: cs).length := gapLength_le _
    simp only [List.length_cons] at this
    omega

end Item

/-- Where an item ends in the first part of a text, the rest may be cut off, or replaced by one that
starts with the same closing bracket. -/
def Replaces (w v : List Char) : Prop :=
  w = [] ∨ ∃ d v' w', isCloser d = true ∧ v = d :: v' ∧ w = d :: w'

theorem isCloser_cases {d : Char} (h : isCloser d = true) : d = ')' ∨ d = ']' ∨ d = '}' := by
  simpa [isCloser, or_assoc] using h

theorem Replaces.head? {u v w : List Char} (hw : Replaces w v) :
    (u ++ w).head? = (u ++ v).head? ∨ (u ++ w).head? = none := by
  cases u with
  | nil =>
    rcases hw with rfl | ⟨d, v, w, -, rfl, rfl⟩
    · exact .inr rfl
    · exact .inl rfl
  | cons c u => exact .inl rfl

theorem Replaces.not_isQuote {v w : List Char} (hw : Replaces w v) :
    ∀ c ∈ w.head?, isQuote c = false := by
  rcases hw with rfl | ⟨d, v, w, hd, rfl, rfl⟩
  · simp
  · rintro c hc
    obtain rfl : d = c := by simpa using hc
    rcases isCloser_cases hd with rfl | rfl | rfl <;> decide

theorem Replaces.triviaLength_eq {u v w : List Char} (hw : Replaces w v)
    (h : triviaLength (u ++ v) ≤ u.length) : triviaLength (u ++ w) = triviaLength (u ++ v) := by
  rcases hw with rfl | ⟨d, v, w, hd, rfl, rfl⟩
  · rw [List.append_nil]
    exact gapLength_of_append h
  · refine gapLength_congr (by decide) ?_ h
    rintro rfl
    exact absurd hd (by decide)

theorem Item.at_congr_code {previous c : Char} {u v w : List Char} (hw : Replaces w v)
    (h : Item.at previous c (u ++ v) = .code) : Item.at previous c (u ++ w) = .code := by
  rw [Item.at_eq_code_iff, startsString_cons] at h ⊢
  rcases hw.head? (u := u) with he | he
  · simpa only [startsComment, he] using h
  · simp only [startsComment, he, Option.any_none]
    simp_all

theorem Item.at_congr_inert {previous c : Char} {u v w : List Char} (hw : Replaces w v) {k : Nat}
    (hk : k ≤ u.length) (h : Item.at previous c (u ++ v) = .inert k) :
    Item.at previous c (u ++ w) = .inert k := by
  have hne : 1 ≤ k → (u ++ w).head? = (u ++ v).head? := by
    intro hk'
    cases u with
    | nil => simp at hk; omega
    | cons d u => rfl
  rw [Item.at_eq_inert_iff] at h ⊢
  rcases h with ⟨hs, hl⟩ | ⟨hs, hc, hl⟩
  · have := two_le_of_stringLength? hs hl
    refine .inl ⟨?_, stringLength?_congr (u := c :: u) hs hl (by simpa using hk) hw.not_isQuote⟩
    simpa only [startsString_cons, hne (by omega)] using hs
  · have := two_le_triviaLength hc
    refine .inr ⟨?_, ?_, ?_⟩
    · simpa only [startsString_cons, hne (by omega)] using hs
    · simpa only [startsComment, hne (by omega)] using hc
    · rw [← hl]
      exact hw.triviaLength_eq (u := c :: u) (by
        rw [List.cons_append, hl]
        simpa using hk)

variable {σ α : Type} {step : σ → Char → Except α σ}

inductive Scans (step : σ → Char → Except α σ) : σ → Cursor → Nat → σ → Prop
  | here (state : σ) (s : Cursor) : Scans step state s 0 state
  | code {state next final : σ} {s : Cursor} {c : Char} {cs : List Char} {n : Nat} :
      s.ahead = c :: cs → Item.at s.previous c cs = .code → step state c = .ok next →
      Scans step next (s.forward 1) n final → Scans step state s (1 + n) final
  | inert {state final : σ} {s : Cursor} {c : Char} {cs : List Char} {k n : Nat} :
      s.ahead = c :: cs → Item.at s.previous c cs = .inert k →
      Scans step state (s.forward (k + 1)) n final → Scans step state s (k + 1 + n) final

namespace Scans

variable {state next final : σ} {s : Cursor} {m n : Nat}

theorem trans (h : Scans step state s m next) (h' : Scans step next (s.forward m) n final) :
    Scans step state s (m + n) final := by
  induction h with
  | here => simpa using h'
  | code ha hi hs _ ih =>
    rw [Nat.add_assoc]
    exact .code ha hi hs (ih (by simpa using h'))
  | inert ha hi _ ih =>
    rw [Nat.add_assoc]
    exact .inert ha hi (ih (by simpa using h'))

theorem le_length (h : Scans step state s n final) : n ≤ s.ahead.length := by
  induction h with
  | here => exact Nat.zero_le _
  | code ha _ _ _ ih =>
    simp only [Cursor.forward_ahead, ha, List.drop_succ_cons, List.drop_zero, List.length_cons] at ih ⊢
    omega
  | inert ha hi _ ih =>
    have := Item.le_length hi
    simp only [Cursor.forward_ahead, ha, List.length_drop, List.length_cons] at ih ⊢
    omega

theorem eq_of_zero (h : Scans step state s 0 final) : final = state := by
  generalize hn : 0 = n at h
  cases h with
  | here => rfl
  | code | inert => omega

/-- A scan comes by one place only between two items. -/
theorem tail (h : Scans step state s m next) (h' : Scans step state s n final) (hm : m ≤ n) :
    Scans step next (s.forward m) (n - m) final := by
  induction h generalizing n with
  | here => simpa using h'
  | code ha hi hs _ ih =>
    cases h' with
    | here => omega
    | code ha' hi' hs' h' =>
      obtain ⟨rfl, rfl⟩ := List.cons.inj (ha.symm.trans ha')
      obtain rfl := Except.ok.inj (hs.symm.trans hs')
      have := ih h' (by omega)
      rwa [Cursor.forward_forward, show ∀ a b, a - b = 1 + a - (1 + b) by omega] at this
    | inert ha' hi' h' =>
      obtain ⟨rfl, rfl⟩ := List.cons.inj (ha.symm.trans ha')
      simp [hi] at hi'
  | inert ha hi _ ih =>
    cases h' with
    | here => omega
    | code ha' hi' =>
      obtain ⟨rfl, rfl⟩ := List.cons.inj (ha.symm.trans ha')
      simp [hi] at hi'
    | @inert _ _ _ _ _ k' n ha' hi' h' =>
      obtain ⟨rfl, rfl⟩ := List.cons.inj (ha.symm.trans ha')
      obtain rfl : _ = k' := by simpa [hi] using hi'
      have := ih h' (by omega)
      rwa [Cursor.forward_forward, ← Nat.add_sub_add_left (_ + 1)] at this

theorem congr {behind u v w : List Char} (h : Scans step state ⟨behind, u ++ v⟩ n final)
    (hn : n ≤ u.length) (hw : Replaces w v) : Scans step state ⟨behind, u ++ w⟩ n final := by
  generalize hs : Cursor.mk behind (u ++ v) = s at h
  induction h generalizing behind u with
  | here => exact .here _ _
  | @code state next final s c cs n ha hi hst _ ih =>
    subst hs
    cases u with
    | nil => simp at hn
    | cons d u =>
      obtain ⟨rfl, rfl⟩ := List.cons.inj ha
      exact .code rfl (Item.at_congr_code hw hi) hst (ih (by simp at hn; omega) rfl)
  | @inert state final s c cs k n ha hi _ ih =>
    subst hs
    cases u with
    | nil => simp at hn
    | cons d u =>
      obtain ⟨rfl, rfl⟩ := List.cons.inj ha
      have hk : k + 1 ≤ (d :: u).length := by simp only [List.length_cons] at hn ⊢; omega
      refine .inert rfl (Item.at_congr_inert hw (by simpa using hk) hi) ?_
      have hf := fun v => Cursor.forward_append_of_le hk behind v
      rw [hf]
      refine ih ?_ (hf v).symm
      simp only [List.length_drop]
      omega

theorem within (h : Scans step state s n final) (hn : n ≤ m) :
    Scans step state (s.within m) n final := by
  have hs : s = ⟨s.behind, s.ahead.take m ++ s.ahead.drop m⟩ := by rw [List.take_append_drop]
  rw [hs] at h
  have := h.congr (by have := h.le_length; simp at this ⊢; omega) (.inl rfl)
  rwa [List.append_nil] at this

end Scans

/-- The outcome of a scan at a cursor. -/
def scanFrom (step : σ → Char → Except α σ) (state : σ) (s : Cursor) : Option (α × Nat) :=
  scanCode step state s.previous s.ahead

theorem scanCode_go_add (state : σ) (skip : Nat) (previous : Char) (m n : Nat) (cs : List Char) :
    scanCode.go step state skip previous (m + n) cs =
      (scanCode.go step state skip previous n cs).map fun (a, k) => (a, m + k) := by
  fun_induction scanCode.go step state skip previous n cs <;>
    simp_all [scanCode.go, Nat.add_assoc]

theorem scanCode_go_skip (step : σ → Char → Except α σ) (state : σ) (behind : List Char) (n : Nat)
    {skip : Nat} {cs : List Char} (h : skip ≤ cs.length) :
    scanCode.go step state skip (Cursor.mk behind cs).previous n cs =
      (scanFrom step state ((Cursor.mk behind cs).forward skip)).map
        fun (a, k) => (a, n + skip + k) := by
  induction skip generalizing behind n cs with
  | zero => simpa [scanFrom, scanCode] using scanCode_go_add state 0 _ n 0 cs
  | succ skip ih =>
    cases cs with
    | nil => simp at h
    | cons c cs =>
      have := ih (c :: behind) (n + 1) (by simpa using h)
      rw [scanCode.go, Cursor.forward_cons]
      simpa [Cursor.previous, Nat.add_assoc, Nat.add_comm 1] using this

section

variable {state next : σ} {s : Cursor} {c : Char} {cs : List Char}

theorem scanFrom_code (ha : s.ahead = c :: cs) (hi : Item.at s.previous c cs = .code)
    (hs : step state c = .ok next) : scanFrom step state s =
      (scanFrom step next (s.forward 1)).map fun (a, k) => (a, 1 + k) := by
  obtain ⟨behind, ahead⟩ := s
  subst ha
  have := scanCode_go_skip step next (c :: behind) 1 (Nat.zero_le cs.length)
  have hf : (Cursor.mk behind (c :: cs)).forward 1 = ⟨c :: behind, cs⟩ := rfl
  rw [scanFrom, scanCode, scanCode.go, hf]
  simp only [hi, hs]
  simpa [Cursor.previous] using this

theorem scanFrom_inert {k : Nat} (ha : s.ahead = c :: cs)
    (hi : Item.at s.previous c cs = .inert k) : scanFrom step state s =
      (scanFrom step state (s.forward (k + 1))).map fun (a, m) => (a, k + 1 + m) := by
  obtain ⟨behind, ahead⟩ := s
  subst ha
  have := scanCode_go_skip step state (c :: behind) 1 (Item.le_length hi)
  rw [scanFrom, scanCode, scanCode.go, Cursor.forward_cons]
  simp only [hi]
  simpa [Cursor.previous, Nat.add_comm 1] using this

theorem scanFrom_halt {a : α} (ha : s.ahead = c :: cs) (hi : Item.at s.previous c cs = .code)
    (hs : step state c = .error a) : scanFrom step state s = some (a, 0) := by
  obtain ⟨behind, ahead⟩ := s
  subst ha
  simp only [scanFrom, scanCode, scanCode.go, hi, hs]

theorem scanFrom_torn (ha : s.ahead = c :: cs) (hi : Item.at s.previous c cs = .torn) :
    scanFrom step state s = none := by
  obtain ⟨behind, ahead⟩ := s
  subst ha
  simp only [scanFrom, scanCode, scanCode.go, hi]

end

theorem Scans.scanFrom_eq {state final : σ} {s : Cursor} {n : Nat}
    (h : Scans step state s n final) : scanFrom step state s =
      (scanFrom step final (s.forward n)).map fun (a, k) => (a, n + k) := by
  induction h with
  | here => simp
  | code ha hi hs _ ih =>
    rw [scanFrom_code ha hi hs, ih, Cursor.forward_forward]
    simp [Nat.add_assoc, Function.comp_def]
  | inert ha hi _ ih =>
    rw [scanFrom_inert ha hi, ih, Cursor.forward_forward]
    simp [Nat.add_assoc, Function.comp_def]

/-- A scan that halts comes to the character of code that makes it halt. -/
theorem scans_of_scanFrom {state : σ} {s : Cursor} {a : α} {n : Nat}
    (h : scanFrom step state s = some (a, n)) :
    ∃ final c cs, Scans step state s n final ∧ (s.forward n).ahead = c :: cs ∧
      Item.at (s.forward n).previous c cs = .code ∧ step final c = .error a := by
  -- By induction on the length of what is ahead, since an item may be of any length.
  induction hl : s.ahead.length using Nat.strongRecOn generalizing state s n with
  | ind l ih =>
    cases ha : s.ahead with
    | nil => simp [scanFrom, scanCode, scanCode.go, ha] at h
    | cons c cs =>
      have hlen : ∀ k, (s.forward (k + 1)).ahead.length < l := by
        intro k
        simp only [Cursor.forward_ahead, List.length_drop, ← hl, ha, List.length_cons]
        omega
      cases hi : Item.at s.previous c cs with
      | torn => simp [scanFrom_torn ha hi] at h
      | inert k =>
        rw [scanFrom_inert ha hi, Option.map_eq_some_iff] at h
        obtain ⟨⟨b, m⟩, hm, he⟩ := h
        obtain ⟨rfl, rfl⟩ := Prod.mk.inj he
        obtain ⟨final, d, ds, hsc, had, hid, hst⟩ := ih _ (hlen k) hm rfl
        rw [Cursor.forward_forward] at had hid
        exact ⟨final, d, ds, .inert ha hi hsc, had, hid, hst⟩
      | code =>
        cases hs : step state c with
        | error b =>
          rw [scanFrom_halt ha hi hs] at h
          obtain ⟨rfl, rfl⟩ := Prod.mk.inj (Option.some.inj h)
          exact ⟨state, c, cs, .here _ _, by simpa using ha, by simpa using hi, hs⟩
        | ok next =>
          rw [scanFrom_code ha hi hs, Option.map_eq_some_iff] at h
          obtain ⟨⟨b, m⟩, hm, he⟩ := h
          obtain ⟨rfl, rfl⟩ := Prod.mk.inj he
          obtain ⟨final, d, ds, hsc, had, hid, hst⟩ := ih _ (hlen 0) hm rfl
          rw [Cursor.forward_forward] at had hid
          exact ⟨final, d, ds, .code ha hi hs hsc, had, hid, hst⟩

theorem Scans.scanFrom_eq_some {state final : σ} {s : Cursor} {n : Nat} {c : Char} {cs : List Char}
    {a : α} (h : Scans step state s n final) (ha : (s.forward n).ahead = c :: cs)
    (hi : Item.at (s.forward n).previous c cs = .code) (hs : step final c = .error a) :
    scanFrom step state s = some (a, n) := by
  rw [h.scanFrom_eq, scanFrom_halt ha hi hs]
  rfl

end WidgetJsx.Expression
