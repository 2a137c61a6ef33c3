import WidgetJsx.Proofs.Scan

/-! Matching brackets. A level text can be read wherever some bracket is open, and leaves the open
brackets as they are; what stands between a bracket and the one that closes it is level. -/

namespace WidgetJsx.Expression

open Text (Cursor)

/-- All that a step of the matching scan can do without a halt. -/
theorem matchStep_eq_ok_iff {awaited next : List Char} {c : Char} :
    matchStep awaited c = .ok next ↔
      (∃ k, closerOf? c = some k ∧ next = k :: awaited) ∨
      (closerOf? c = none ∧ isCloser c = false ∧ next = awaited) ∨
      (closerOf? c = none ∧ isCloser c = true ∧ next ≠ [] ∧ awaited = c :: next) := by
  unfold matchStep
  cases ho : closerOf? c with
  | some k =>
    constructor
    · rintro ⟨rfl⟩
      exact .inl ⟨k, rfl, rfl⟩
    · simp_all
  | none =>
    cases hc : isCloser c with
    | false =>
      constructor
      · rintro ⟨rfl⟩
        exact .inr (.inl ⟨rfl, rfl, rfl⟩)
      · simp_all
    | true =>
      cases awaited with
      | nil => simp
      | cons k awaited =>
        by_cases hk : k = c
        · subst hk
          cases awaited with
          | nil => simp_all
          | cons d awaited =>
            simp only [ne_eq, not_true_eq_false, if_false, List.isEmpty_cons, Bool.false_eq_true]
            constructor
            · rintro ⟨rfl⟩
              simp
            · simp_all
        · simp [hk]

theorem matchStep_eq_true_iff {awaited : List Char} {c : Char} :
    matchStep awaited c = .error true ↔
      closerOf? c = none ∧ isCloser c = true ∧ awaited = [c] := by
  unfold matchStep
  cases ho : closerOf? c with
  | some k => simp
  | none =>
    cases hc : isCloser c with
    | false => simp
    | true =>
      cases awaited with
      | nil => simp
      | cons k awaited =>
        by_cases hk : k = c
        · subst hk
          cases awaited <;> simp
        · simp [hk]

theorem closerOf?_cases {c k : Char} (h : closerOf? c = some k) :
    c = '(' ∧ k = ')' ∨ c = '[' ∧ k = ']' ∨ c = '{' ∧ k = '}' := by
  unfold closerOf? at h
  split at h
  all_goals simp_all
  all_goals exact h.symm

theorem isCloser_of_closerOf? {c k : Char} (h : closerOf? c = some k) :
    isCloser k = true ∧ closerOf? k = none := by
  rcases closerOf?_cases h with ⟨-, rfl⟩ | ⟨-, rfl⟩ | ⟨-, rfl⟩ <;> decide

theorem Item.at_bracket {c : Char} (h : (closerOf? c).isSome ∨ isCloser c = true) (previous : Char)
    (cs : List Char) : Item.at previous c cs = .code := by
  have hc : isQuote c = false ∧ (c == 'r') = false ∧ c ≠ '/' := by
    rcases h with h | h
    · obtain ⟨k, hk⟩ := Option.isSome_iff_exists.mp h
      rcases closerOf?_cases hk with ⟨rfl, -⟩ | ⟨rfl, -⟩ | ⟨rfl, -⟩ <;> decide
    · rcases isCloser_cases h with rfl | rfl | rfl <;> decide
  rw [Item.at_eq_code_iff, startsString_cons]
  exact ⟨by simp [hc.1, hc.2.1], fun hs => hc.2.2 hs.1⟩

/-- Awaiting more brackets further out makes no difference while those are not met. -/
theorem Scans.rebase {awaited final : List Char} {s : Cursor} {n : Nat}
    (h : Scans matchStep awaited s n final) {inner : List Char} {k : Char}
    (ha : awaited = inner ++ [k]) : ∃ inner', final = inner' ++ [k] ∧
      ∀ base ≠ [], Scans matchStep (inner ++ base) s n (inner' ++ base) := by
  induction h generalizing inner with
  | here => exact ⟨inner, ha, fun _ _ => .here _ _⟩
  | inert hd hi _ ih =>
    obtain ⟨inner', hf, hb⟩ := ih ha
    exact ⟨inner', hf, fun base hne => .inert hd hi (hb base hne)⟩
  | @code state next final s c cs n hd hi hs _ ih =>
    subst ha
    rcases matchStep_eq_ok_iff.mp hs with ⟨k', hk, rfl⟩ | ⟨ho, hc, rfl⟩ | ⟨ho, hc, hne, he⟩
    · obtain ⟨inner', hf, hb⟩ := @ih (k' :: inner) rfl
      refine ⟨inner', hf, fun base hne => .code hd hi ?_ (hb base hne)⟩
      exact matchStep_eq_ok_iff.mpr (.inl ⟨k', hk, rfl⟩)
    · obtain ⟨inner', hf, hb⟩ := ih rfl
      refine ⟨inner', hf, fun base hne => .code hd hi ?_ (hb base hne)⟩
      exact matchStep_eq_ok_iff.mpr (.inr (.inl ⟨ho, hc, rfl⟩))
    · cases inner with
      | nil =>
        obtain ⟨-, rfl⟩ := List.cons.inj he
        exact absurd rfl hne
      | cons d inner =>
        obtain ⟨rfl, rfl⟩ := List.cons.inj he
        obtain ⟨inner', hf, hb⟩ := ih rfl
        refine ⟨inner', hf, fun base hne => .code hd hi ?_ (hb base hne)⟩
        exact matchStep_eq_ok_iff.mpr (.inr (.inr ⟨ho, hc, by simp [hne], rfl⟩))

/-- The text up to the bound is read with no bracket left open or closed in vain. -/
def Level (s : Cursor) : Prop :=
  ∀ awaited ≠ [], Scans matchStep awaited s s.ahead.length awaited

theorem level_of_scans {k : Char} {s : Cursor}
    (h : Scans matchStep [k] s s.ahead.length [k]) : Level s := by
  obtain ⟨inner, hf, hb⟩ := h.rebase (List.nil_append [k]).symm
  obtain rfl : inner = [] := by simpa using hf
  exact hb

theorem Level.forward {s : Cursor} (h : Level s) {n : Nat}
    (hs : Scans matchStep [')'] s n [')']) : Level (s.forward n) := by
  have ht := hs.tail (h [')'] (by simp)) hs.le_length
  refine level_of_scans (k := ')') ?_
  rwa [Cursor.forward_ahead, List.length_drop]

theorem closing?_eq_some_iff {s : Cursor} {n : Nat} :
    closing? s.previous s.ahead = some n ↔ scanFrom matchStep [] s = some (true, n) := by
  unfold closing? scanFrom
  split
  · simp_all
  · rename_i h
    simp only [reduceCtorEq, false_iff]
    exact h n

theorem closing?_previous {c k : Char} (hk : closerOf? c = some k) (p q : Char) (cs : List Char) :
    closing? p (c :: cs) = closing? q (c :: cs) := by
  have hi : ∀ p, Item.at p c cs = .code := fun p => Item.at_bracket (.inl (by rw [hk]; rfl)) p cs
  simp only [closing?, scanCode, scanCode.go, hi]

section

variable {s : Cursor} {c k : Char} {cs : List Char}

theorem matchStep_opener (h : closerOf? c = some k) (awaited : List Char) :
    matchStep awaited c = .ok (k :: awaited) :=
  matchStep_eq_ok_iff.mpr (.inl ⟨k, h, rfl⟩)

theorem matchStep_closer (h : closerOf? c = some k) {awaited : List Char} (hne : awaited ≠ []) :
    matchStep (k :: awaited) k = .ok awaited :=
  matchStep_eq_ok_iff.mpr
    (.inr (.inr ⟨(isCloser_of_closerOf? h).2, (isCloser_of_closerOf? h).1, hne, rfl⟩))

theorem scans_opener (ha : s.ahead = c :: cs) (hk : closerOf? c = some k) (awaited : List Char) :
    Scans matchStep awaited s 1 (k :: awaited) :=
  .code ha (Item.at_bracket (.inl (by simp [hk])) _ _) (matchStep_opener hk awaited) (.here _ _)

theorem scans_closer (ha : s.ahead = k :: cs) (hk : closerOf? c = some k) {awaited : List Char}
    (hne : awaited ≠ []) : Scans matchStep (k :: awaited) s 1 awaited :=
  .code ha (Item.at_bracket (.inr (isCloser_of_closerOf? hk).1) _ _) (matchStep_closer hk hne)
    (.here _ _)

theorem closing?_eq_of_scans (ha : s.ahead = c :: cs) (hk : closerOf? c = some k) {n : Nat}
    (h : Scans matchStep [k] (s.forward 1) n [k]) {rest : List Char}
    (hr : (s.forward (1 + n)).ahead = k :: rest) : closing? s.previous s.ahead = some (1 + n) := by
  rw [closing?_eq_some_iff]
  refine Scans.scanFrom_eq_some ((scans_opener ha hk []).trans h) hr
    (Item.at_bracket (.inr (isCloser_of_closerOf? hk).1) _ _) ?_
  exact matchStep_eq_true_iff.mpr ⟨(isCloser_of_closerOf? hk).2, (isCloser_of_closerOf? hk).1, rfl⟩

/-- Whatever else is open, a scan passes what stands between the brackets. -/
theorem scans_of_closing? (ha : s.ahead = c :: cs) (hk : closerOf? c = some k) {n : Nat}
    (h : closing? s.previous s.ahead = some n) : 1 ≤ n ∧ (∃ rest, (s.forward n).ahead = k :: rest) ∧
      ∀ base ≠ [], Scans matchStep base (s.forward 1) (n - 1) base := by
  obtain ⟨final, d, ds, hsc, had, -, hst⟩ := scans_of_scanFrom (closing?_eq_some_iff.mp h)
  obtain ⟨-, hd, rfl⟩ := matchStep_eq_true_iff.mp hst
  have hn : 1 ≤ n := by
    rcases Nat.eq_zero_or_pos n with rfl | hn
    · exact absurd hsc.eq_of_zero (by simp)
    · exact hn
  obtain ⟨inner, hf, hb⟩ := ((scans_opener ha hk []).tail hsc hn).rebase (List.nil_append [k]).symm
  obtain ⟨rfl, rfl⟩ : inner = [] ∧ d = k := by
    cases inner with
    | nil => exact ⟨rfl, (List.cons.inj hf).1⟩
    | cons e inner => simp at hf
  exact ⟨hn, ⟨ds, had⟩, hb⟩

theorem scans_brackets (ha : s.ahead = c :: cs) (hk : closerOf? c = some k) {n : Nat}
    (h : closing? s.previous s.ahead = some n) {base : List Char} (hne : base ≠ []) :
    Scans matchStep base s (n + 1) base := by
  obtain ⟨hn, ⟨rest, hr⟩, hb⟩ := scans_of_closing? ha hk h
  have ho := (scans_opener ha hk base).trans (hb (k :: base) (by simp))
  rw [Nat.add_sub_cancel' hn] at ho
  exact ho.trans (scans_closer hr hk hne)

theorem level_within (ha : s.ahead = c :: cs) (hk : closerOf? c = some k) {n : Nat}
    (h : closing? s.previous s.ahead = some n) : Level ((s.forward 1).within (n - 1)) := by
  obtain ⟨hn, ⟨rest, hr⟩, hb⟩ := scans_of_closing? ha hk h
  intro awaited hne
  have hl := (hb awaited hne).within (Nat.le_refl _)
  have := (hb awaited hne).le_length
  rwa [Cursor.within_ahead, List.length_take, Nat.min_eq_left this]

theorem closing?_within (ha : s.ahead = c :: cs) (hk : closerOf? c = some k) {m n : Nat}
    (h : closing? s.previous s.ahead = some n) (hm : n < m) :
    closing? (s.within m).previous (s.within m).ahead = some n := by
  obtain ⟨hn, ⟨rest, hr⟩, hb⟩ := scans_of_closing? ha hk h
  obtain ⟨m, rfl⟩ : ∃ l, m = l + 1 := ⟨m - 1, by omega⟩
  have ha' : (s.within (m + 1)).ahead = c :: cs.take m := by rw [Cursor.within_ahead, ha]; rfl
  have hs : Scans matchStep [k] ((s.within (m + 1)).forward 1) (n - 1) [k] := by
    rw [Cursor.forward_within (by omega)]
    exact (hb [k] (by simp)).within (by omega)
  have hr' : ((s.within (m + 1)).forward (1 + (n - 1))).ahead = k :: rest.take (m - n) := by
    rw [Cursor.forward_within (by omega), Cursor.within_ahead, Nat.add_sub_cancel' hn, hr,
      show m + 1 - n = m - n + 1 by omega, List.take_succ_cons]
  rw [closing?_eq_of_scans ha' hk hs hr', Nat.add_sub_cancel' hn]

/-- A bracket that is awaited at one place and not at a later one is met in between. -/
theorem Scans.exists_closing {awaited inner base final : List Char} {n : Nat}
    (h : Scans matchStep awaited s n final) (ha : awaited = inner ++ k :: base)
    (hl : final.length ≤ base.length) :
    ∃ m, Scans matchStep (inner ++ [k]) s m [k] ∧ ∃ rest, (s.forward m).ahead = k :: rest := by
  induction h generalizing inner with
  | here =>
    simp only [ha, List.length_append, List.length_cons] at hl
    omega
  | inert hd hi _ ih =>
    obtain ⟨m, hm, hr⟩ := ih ha hl
    rw [Cursor.forward_forward] at hr
    exact ⟨_, .inert hd hi hm, hr⟩
  | @code state next final s c cs n hd hi hs _ ih =>
    subst ha
    rcases matchStep_eq_ok_iff.mp hs with ⟨k', hk, rfl⟩ | ⟨ho, hc, rfl⟩ | ⟨ho, hc, hne, he⟩
    · obtain ⟨m, hm, hr⟩ := @ih (k' :: inner) rfl hl
      rw [Cursor.forward_forward] at hr
      exact ⟨_, .code hd hi (matchStep_opener hk _) hm, hr⟩
    · obtain ⟨m, hm, hr⟩ := ih rfl hl
      rw [Cursor.forward_forward] at hr
      exact ⟨_, .code hd hi (matchStep_eq_ok_iff.mpr (.inr (.inl ⟨ho, hc, rfl⟩))) hm, hr⟩
    · cases inner with
      | nil =>
        obtain ⟨rfl, -⟩ := List.cons.inj he
        exact ⟨0, .here _ _, cs, by simpa using hd⟩
      | cons d inner =>
        obtain ⟨rfl, rfl⟩ := List.cons.inj he
        obtain ⟨m, hm, hr⟩ := ih rfl hl
        rw [Cursor.forward_forward] at hr
        exact ⟨_, .code hd hi (matchStep_eq_ok_iff.mpr (.inr (.inr ⟨ho, hc, by simp, rfl⟩))) hm, hr⟩

theorem Level.exists_closing (h : Level s) (ha : s.ahead = c :: cs) (hk : closerOf? c = some k) :
    ∃ n, closing? s.previous s.ahead = some n ∧ Level ((s.forward 1).within (n - 1)) ∧
      Level (s.forward (n + 1)) := by
  have hs := h [')'] (by simp)
  have ht := (scans_opener ha hk [')']).tail hs (by rw [ha]; simp)
  obtain ⟨m, hm, rest, hr⟩ := ht.exists_closing (List.nil_append _).symm (Nat.le_refl _)
  rw [Cursor.forward_forward] at hr
  have hc := closing?_eq_of_scans ha hk hm hr
  exact ⟨1 + m, hc, level_within ha hk hc, h.forward (scans_brackets ha hk hc (by simp))⟩

end

end WidgetJsx.Expression
