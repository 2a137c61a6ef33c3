import Mathlib.Data.List.Induction
import WidgetJsx.Proofs.Keyword
import WidgetJsx.Proofs.Nesting
import WidgetJsx.Proofs.Number
import WidgetJsx.Proofs.Path

/-! The matching scan passes the words, gaps and literals that the readers pass, and stands between
two items behind each of them. -/

namespace WidgetJsx.Expression

open Text (Cursor)

variable {σ α : Type} {step : σ → Char → Except α σ} {state : σ}
  {awaited : List Char} {s : Cursor} {c : Char} {cs : List Char}

theorem matchStep_other (ho : closerOf? c = none) (hc : isCloser c = false) (awaited : List Char) :
    matchStep awaited c = .ok awaited :=
  matchStep_eq_ok_iff.mpr (.inr (.inl ⟨ho, hc, rfl⟩))

/-- A step in this state passes whatever is neither a bracket nor a comma, and stays in the state. -/
def Indifferent (step : σ → Char → Except α σ) (state : σ) : Prop :=
  ∀ c, closerOf? c = none → isCloser c = false → c ≠ ',' → step state c = .ok state

theorem indifferent_matchStep (awaited : List Char) : Indifferent matchStep awaited :=
  fun _ ho hc _ => matchStep_other ho hc awaited

theorem scans_code (ha : s.ahead = c :: cs) (hi : Item.at s.previous c cs = .code)
    (hs : step state c = .ok state) : Scans step state s 1 state :=
  .code ha hi hs (.here _ _)

/-- A character of code that is neither a bracket nor the start of anything else. -/
structure Mark (c : Char) : Prop where
  not_quote : isQuote c = false
  not_raw : c ≠ 'r'
  not_slash : c ≠ '/'
  not_opener : closerOf? c = none
  not_closer : isCloser c = false

instance : DecidablePred Mark := fun c =>
  decidable_of_iff (isQuote c = false ∧ c ≠ 'r' ∧ c ≠ '/' ∧ closerOf? c = none ∧ isCloser c = false)
    ⟨fun ⟨hq, hr, hs, ho, hc⟩ => ⟨hq, hr, hs, ho, hc⟩, fun ⟨hq, hr, hs, ho, hc⟩ => ⟨hq, hr, hs, ho, hc⟩⟩

theorem Mark.item (h : Mark c) (previous : Char) (cs : List Char) :
    Item.at previous c cs = .code := by
  rw [Item.at_eq_code_iff, startsString_cons]
  exact ⟨by simp [h.not_quote, h.not_raw], fun hs => h.not_slash hs.1⟩

theorem Mark.scans (h : Mark c) (ha : s.ahead = c :: cs) (awaited : List Char) :
    Scans matchStep awaited s 1 awaited :=
  scans_code ha (h.item _ _) (matchStep_other h.not_opener h.not_closer awaited)

theorem closerOf?_eq_none_of_isNameChar (h : isNameChar c = true) : closerOf? c = none := by
  cases hk : closerOf? c with
  | none => rfl
  | some k =>
    rcases closerOf?_cases hk with ⟨rfl, -⟩ | ⟨rfl, -⟩ | ⟨rfl, -⟩ <;> exact absurd h (by decide)

theorem isCloser_eq_false_of_isNameChar (h : isNameChar c = true) : isCloser c = false := by
  apply Bool.eq_false_iff.mpr
  intro hc
  rcases isCloser_cases hc with rfl | rfl | rfl <;> exact absurd h (by decide)

theorem mark_of_isNameChar (h : isNameChar c = true) (hr : c ≠ 'r') : Mark c :=
  ⟨isQuote_eq_false_of_isNameChar h, hr, ne_of_isNameChar h, closerOf?_eq_none_of_isNameChar h,
    isCloser_eq_false_of_isNameChar h⟩

theorem mark_of_mem (h : c ∈ ['.', ',', ':', ';', '-', '?', '<', '>']) : Mark c := by
  simp only [List.mem_cons, List.not_mem_nil, or_false] at h
  rcases h with rfl | rfl | rfl | rfl | rfl | rfl | rfl | rfl <;> decide

theorem mark_of_isBlank (h : Text.isBlank c = true) : Mark c := by
  have hne : ∀ d, Text.isBlank d = false → c ≠ d := by
    rintro d hd rfl
    simp [h] at hd
  refine ⟨(isBlank_breaks h).2.2, hne _ (by decide), hne _ (by decide), ?_, ?_⟩
  · cases hk : closerOf? c with
    | none => rfl
    | some k =>
      rcases closerOf?_cases hk with ⟨rfl, -⟩ | ⟨rfl, -⟩ | ⟨rfl, -⟩ <;> exact absurd h (by decide)
  · apply Bool.eq_false_iff.mpr
    intro hc
    rcases isCloser_cases hc with rfl | rfl | rfl <;> exact absurd h (by decide)

theorem scans_marks {u : List Char} (hu : ∀ c ∈ u, Mark c) (behind rest awaited : List Char) :
    Scans matchStep awaited ⟨behind, u ++ rest⟩ u.length awaited := by
  induction u generalizing behind with
  | nil => exact .here _ _
  | cons c u ih =>
    rw [List.length_cons, Nat.add_comm]
    have hm := (hu c (by simp)).scans (s := ⟨behind, c :: (u ++ rest)⟩) rfl awaited
    exact hm.trans (ih (fun d hd => hu d (by simp [hd])) _)

/-- What follows does not make a raw string of the last letter. -/
def Clear (u rest : List Char) : Prop :=
  ∀ q ∈ rest.head?, isQuote q = true → u ≠ ['r'] ∧ ¬ ['.', 'r'] <:+ u

theorem Breaks.clear {rest : List Char} (h : Breaks rest) (u : List Char) : Clear u rest :=
  fun q hq hquote => by simp [(h q hq).2.2] at hquote

theorem clear_of_gap {rest : List Char} (h : (rest.drop (triviaLength rest)).head? = some c)
    (hc : isQuote c = false) (u : List Char) : Clear u rest := by
  intro q hq hquote
  obtain ⟨ds, rfl⟩ := List.head?_eq_some_iff.mp hq
  have hsolid : Solid Text.isBlank (q :: ds) := by
    refine solid_cons ?_ ?_ ds
    · exact Bool.eq_false_iff.mpr fun hb => by simp [(isBlank_breaks hb).2.2] at hquote
    · rintro rfl
      exact absurd hquote (by decide)
  rw [triviaLength, show gapLength Text.isBlank (q :: ds) = 0 from hsolid] at h
  obtain rfl : q = c := by simpa using h
  simp [hc] at hquote

/-- A path with a dot in it runs into no quote, where no `r` stands between a dot and a quote. -/
theorem clear_of_dot {cs : List Char} {n : Nat} (h : ∀ q, isQuote q = true → ¬ ['.', 'r', q] <:+: cs)
    (hd : '.' ∈ cs.take n) : Clear (cs.take n) (cs.drop n) := by
  intro q hq hquote
  constructor
  · intro hr
    rw [hr] at hd
    exact absurd hd (by decide)
  · rintro ⟨u, hu⟩
    obtain ⟨rest, hrest⟩ := List.head?_eq_some_iff.mp hq
    refine h q hquote ⟨u, rest, ?_⟩
    rw [← List.take_append_drop n cs, hrest, ← hu]
    simp

/-- An `r` within a word or at its end is an item of code. -/
theorem Clear.item {u v rest : List Char} (hu : ∀ d ∈ u ++ c :: v, isNameChar d = true ∨ d = '.')
    (hr : Clear (u ++ c :: v) rest) (behind : List Char) :
    Item.at ((u.reverse ++ behind).headD '\n') c (v ++ rest) = .code := by
  rcases hu c (by simp) with hc | rfl
  · rw [Item.at_eq_code_iff, startsString_cons, isQuote_eq_false_of_isNameChar hc, Bool.false_or]
    refine ⟨Bool.eq_false_iff.mpr fun hs => ?_, fun hs => ne_of_isNameChar (d := '/') hc (by decide) hs.1⟩
    simp only [Bool.and_eq_true, beq_iff_eq, Option.any_eq_true, Bool.not_eq_true'] at hs
    obtain ⟨⟨rfl, q, hq, hquote⟩, hp⟩ := hs
    cases v with
    | cons d v =>
      obtain rfl : d = q := by simpa using hq
      rcases hu d (by simp) with hd | rfl
      · simp [isQuote_eq_false_of_isNameChar hd] at hquote
      · exact absurd hquote (by decide)
    | nil =>
      obtain ⟨hne, hdot⟩ := hr q hq hquote
      cases u using List.reverseRecOn with
      | nil => exact hne rfl
      | append_singleton u e =>
        rcases hu e (by simp) with he | rfl
        · simp [he] at hp
        · exact hdot ⟨u, by simp⟩
  · exact (mark_of_mem (by simp)).item _ _

theorem Indifferent.word (h : Indifferent step state) {u rest : List Char}
    (hu : ∀ c ∈ u, isNameChar c = true ∨ c = '.') (hr : Clear u rest) (behind : List Char) :
    Scans step state ⟨behind, u ++ rest⟩ u.length state := by
  -- The character before the next one counts, so the part that lies behind is kept.
  suffices hscan : ∀ v w, u = w ++ v →
      Scans step state ⟨w.reverse ++ behind, v ++ rest⟩ v.length state by
    simpa using hscan u [] rfl
  intro v
  induction v with
  | nil => exact fun _ _ => .here _ _
  | cons c v ih =>
    rintro w rfl
    have hi := hr.item hu behind
    have hc : step state c = .ok state := by
      rcases hu c (by simp) with hc | rfl
      · exact h c (closerOf?_eq_none_of_isNameChar hc) (isCloser_eq_false_of_isNameChar hc)
          (ne_of_isNameChar hc)
      · exact h '.' (by decide) (by decide) (by decide)
    have hs : Scans step state ⟨w.reverse ++ behind, c :: (v ++ rest)⟩ 1 state := scans_code rfl hi hc
    have ht := ih (w ++ [c]) (by simp)
    rw [List.length_cons, Nat.add_comm]
    refine hs.trans ?_
    simpa [Cursor.forward, Cursor.forward.go] using ht

theorem scans_word {u rest : List Char} (hu : ∀ c ∈ u, isNameChar c = true ∨ c = '.')
    (hr : Clear u rest) (behind awaited : List Char) :
    Scans matchStep awaited ⟨behind, u ++ rest⟩ u.length awaited :=
  (indifferent_matchStep awaited).word hu hr behind

theorem IsNumber.scans {u : List Char} (h : IsNumber u) (behind rest awaited : List Char) :
    Scans matchStep awaited ⟨behind, u ++ rest⟩ u.length awaited := by
  refine scans_marks (fun c hc => ?_) behind rest awaited
  have hr : ∀ c, isHexDigit c = true → c ≠ 'r' := by
    rintro _ h rfl
    exact absurd h (by decide)
  rcases h.mem c hc with hd | hm
  · exact mark_of_isNameChar (isNameChar_of_isHexDigit hd) (hr c hd)
  · simp only [List.mem_cons, List.not_mem_nil, or_false] at hm
    rcases hm with rfl | rfl | rfl | rfl
    · exact mark_of_mem (by simp)
    · exact mark_of_mem (by simp)
    · exact mark_of_isNameChar (by decide) (by decide)
    · exact mark_of_isNameChar (by decide) (by decide)

theorem startsString_eq_false (hq : isQuote c = false) (hr : c ≠ 'r') (previous : Char)
    (cs : List Char) : startsString previous (c :: cs) = false := by
  simp [startsString_cons, hq, hr]

theorem Item.at_comment (h : startsComment c cs) (previous : Char) :
    Item.at previous c cs = .inert (triviaLength (c :: cs) - 1) := by
  have := two_le_triviaLength h
  refine Item.at_eq_inert_iff.mpr (.inr ⟨?_, h, by omega⟩)
  rw [h.1]
  exact startsString_eq_false (by decide) (by decide) _ _

theorem gapLength_cons {f : Char → Bool} (h : ¬ startsComment c cs) :
    gapLength f (c :: cs) = if f c then 1 + gapLength f cs else 0 := by
  have hn : ∀ d, d = '/' ∨ d = '*' → ∀ ds, c = '/' → cs ≠ d :: ds := by
    rintro d hd ds rfl rfl
    exact h ⟨rfl, by simpa [eq_comm] using hd⟩
  rw [gapLength, gapLength_go_between (hn '/' (.inl rfl)) (hn '*' (.inr rfl)), gapLength,
    ← gapLength_go_add]

theorem scans_gap {f : Char → Bool} (hb : ∀ c, Text.isBlank c = true → f c = true)
    (hf : ∀ c, f c = true → Mark c) (hstep : ∀ c, f c = true → step state c = .ok state) (s : Cursor) :
    Scans step state s (gapLength f s.ahead) state := by
  have hslash : f '/' = false := Bool.eq_false_iff.mpr fun h => (hf _ h).not_slash rfl
  induction hl : s.ahead.length using Nat.strongRecOn generalizing s with
  | ind l ih =>
    cases ha : s.ahead with
    | nil => exact .here _ _
    | cons c cs =>
      have hlt : ∀ n, 0 < n → (s.forward n).ahead.length < l := by
        intro n hn
        rw [Cursor.forward_ahead, List.length_drop, hl]
        have := congrArg List.length ha
        simp only [List.length_cons] at this
        omega
      by_cases hc : startsComment c cs
      · have htwo := two_le_triviaLength hc
        have hi := Item.at_comment hc s.previous
        have ht := ih _ (hlt _ (Nat.succ_pos _)) (s.forward (triviaLength (c :: cs) - 1 + 1)) rfl
        have hs := Scans.inert ha hi ht
        rw [Cursor.forward_ahead, ha, show triviaLength (c :: cs) - 1 + 1 = triviaLength (c :: cs) by
          omega, triviaLength, ← gapLength_eq_add hb hslash] at hs
        exact hs
      · rw [gapLength_cons hc]
        by_cases hfc : f c = true
        · have ht := ih _ (hlt 1 Nat.one_pos) (s.forward 1) rfl
          rw [Cursor.forward_ahead, ha, List.drop_one, List.tail_cons] at ht
          rw [if_pos hfc]
          exact (scans_code ha ((hf c hfc).item _ _) (hstep c hfc)).trans ht
        · rw [if_neg hfc]
          exact .here _ _

theorem Indifferent.trivia (h : Indifferent step state) (s : Cursor) :
    Scans step state s (triviaLength s.ahead) state := by
  refine scans_gap (fun _ => id) (fun _ => mark_of_isBlank) (fun c hc => ?_) s
  have hm := mark_of_isBlank hc
  refine h c hm.not_opener hm.not_closer ?_
  rintro rfl
  exact absurd hc (by decide)

theorem scans_trivia (s : Cursor) (awaited : List Char) :
    Scans matchStep awaited s (triviaLength s.ahead) awaited :=
  (indifferent_matchStep awaited).trivia s

theorem scans_separators (s : Cursor) (awaited : List Char) :
    Scans matchStep awaited s (separatorsLength s.ahead) awaited := by
  have hm : ∀ c, (Text.isBlank c || c == ',') = true → Mark c := by
    intro c hc
    rcases (Bool.or_eq_true _ _).mp hc with hc | hc
    · exact mark_of_isBlank hc
    · exact mark_of_mem (by simp_all)
  exact scans_gap (fun c hc => by simp [hc]) hm
    (fun c hc => matchStep_other (hm c hc).not_opener (hm c hc).not_closer awaited) s

theorem Scans.string {n : Nat} (hs : startsString s.previous s.ahead = true)
    (hl : stringLength? s.ahead = some n) : Scans step state s n state := by
  have htwo := (two_le_of_stringLength? hs hl).1
  cases ha : s.ahead with
  | nil => simp [ha, startsString] at hs
  | cons c cs =>
    have hi : Item.at s.previous c cs = .inert (n - 1) :=
      Item.at_eq_inert_iff.mpr (.inl ⟨ha ▸ hs, by rw [← ha, hl]; congr 1; omega⟩)
    have h : Scans step state s (n - 1 + 1 + 0) state := .inert ha hi (.here _ _)
    rwa [Nat.add_zero, Nat.sub_add_cancel (by omega)] at h

theorem scans_string {n : Nat} (hs : startsString s.previous s.ahead = true)
    (hl : stringLength? s.ahead = some n) (awaited : List Char) :
    Scans matchStep awaited s n awaited := .string hs hl

theorem Indifferent.startsWithWord (hi : Indifferent step state) {word : String}
    (h : startsWithWord word s.ahead = true) (hw : IsName word.toList)
    (hr : word.toList ≠ ['r'] ∧ ¬ ['.', 'r'] <:+ word.toList) :
    Scans step state s word.toList.length state := by
  obtain ⟨rest, ha, -⟩ := startsWithWord_iff.mp h
  obtain ⟨behind, ahead⟩ := s
  subst ha
  exact hi.word (fun c hc => .inl (hw.isNameChar c hc)) (fun _ _ _ => hr) behind

theorem scans_startsWithWord {word : String} (h : startsWithWord word s.ahead = true)
    (hw : IsName word.toList)
    (hr : word.toList ≠ ['r'] ∧ ¬ ['.', 'r'] <:+ word.toList) (awaited : List Char) :
    Scans matchStep awaited s word.toList.length awaited :=
  (indifferent_matchStep awaited).startsWithWord h hw hr

theorem Indifferent.keyword (hi : Indifferent step state) (s : Cursor) :
    Scans step state s (keywordLength s.ahead) state := by
  rcases keyword_split s.ahead with h | ⟨word, hw, rest, ha, he, h⟩
  · rw [h]
    exact .here _ _
  · have hraw : ∀ word ∈ keywords, word.toList ≠ ['r'] ∧ ¬ ['.', 'r'] <:+ word.toList := by decide
    have hs := hi.startsWithWord (startsWithWord_iff.mpr ⟨rest, ha, he⟩)
      (isName_of_mem_keywords word hw) (hraw word hw)
    rw [h]
    refine hs.trans ?_
    have := hi.trivia (s.forward word.toList.length)
    rwa [Cursor.forward_ahead, ha, List.drop_left] at this

theorem scans_keyword (s : Cursor) (awaited : List Char) :
    Scans matchStep awaited s (keywordLength s.ahead) awaited :=
  (indifferent_matchStep awaited).keyword s

theorem Indifferent.path (hi : Indifferent step state)
    (hc : Clear (s.ahead.take (pathLength s.ahead)) (s.ahead.drop (pathLength s.ahead))) :
    Scans step state s (pathLength s.ahead) state := by
  rcases Nat.eq_zero_or_pos (pathLength s.ahead) with hz | hp
  · rw [hz]
    exact .here _ _
  · obtain ⟨names, u, rest, ha, hl, hu, -⟩ := path_split hp
    rw [hl, ha, List.take_left, List.drop_left] at hc
    obtain ⟨behind, ahead⟩ := s
    subst ha
    rw [hl]
    exact hi.word hu.isNameChar_or_dot hc behind

theorem scans_path (hc : Clear (s.ahead.take (pathLength s.ahead)) (s.ahead.drop (pathLength s.ahead)))
    (awaited : List Char) : Scans matchStep awaited s (pathLength s.ahead) awaited :=
  (indifferent_matchStep awaited).path hc

theorem scans_number (hp : 0 < numberLength s.ahead) (awaited : List Char) :
    Scans matchStep awaited s (numberLength s.ahead) awaited := by
  obtain ⟨u, rest, ha, hl, hu⟩ := number_split hp
  obtain ⟨behind, ahead⟩ := s
  subst ha
  rw [hl]
  exact hu.scans behind rest awaited

theorem rawStep_eq_ok_iff {depth next : Nat} : rawStep depth c = .ok next ↔
    ((closerOf? c).isSome = true ∧ next = depth + 1) ∨
    (closerOf? c = none ∧ isCloser c = true ∧ depth = next + 1) ∨
    (closerOf? c = none ∧ isCloser c = false ∧ next = depth ∧ (c = ',' → depth ≠ 0)) := by
  unfold rawStep
  cases ho : closerOf? c with
  | some k => simp [@eq_comm _ next]
  | none =>
    cases hc : isCloser c with
    | true => cases depth <;> simp
    | false =>
      by_cases hz : c = ',' ∧ depth = 0
      · obtain ⟨rfl, rfl⟩ := hz
        simp
      · have : c = ',' → depth ≠ 0 := fun he h => hz ⟨he, h⟩
        simp only [Option.isSome_none, Bool.false_eq_true, if_false, if_neg hz, Except.ok.injEq,
          false_and, true_and, and_false, false_or]
        constructor
        · rintro rfl
          exact ⟨rfl, this⟩
        · rintro ⟨rfl, -⟩
          rfl

theorem indifferent_rawStep (depth : Nat) : Indifferent rawStep depth :=
  fun _ ho hc hne => rawStep_eq_ok_iff.mpr (.inr (.inr ⟨ho, hc, rfl, fun he => absurd he hne⟩))

/-- The raw scan counts the brackets that the matching scan keeps. -/
theorem Scans.matching {depth depth' m n : Nat} (h : Scans rawStep depth s n depth')
    {inner final : List Char} {k : Char} (hm : Scans matchStep (inner ++ [k]) s m final)
    (hd : inner.length = depth) (hn : n ≤ m) :
    ∃ inner', inner'.length = depth' ∧ Scans matchStep (inner ++ [k]) s n (inner' ++ [k]) := by
  -- By induction on the raw scan: as many brackets are awaited further in as it counts.
  induction h generalizing inner m with
  | here => exact ⟨inner, hd, .here _ _⟩
  | @inert depth depth' s c cs l n ha hi _ ih =>
    cases hm with
    | here => omega
    | code ha' hi' =>
      obtain ⟨rfl, rfl⟩ := List.cons.inj (ha.symm.trans ha')
      simp [hi] at hi'
    | inert ha' hi' ht =>
      obtain ⟨rfl, rfl⟩ := List.cons.inj (ha.symm.trans ha')
      obtain rfl := Item.inert.inj (hi.symm.trans hi')
      obtain ⟨inner', hl, hs⟩ := ih ht hd (by omega)
      exact ⟨inner', hl, .inert ha hi hs⟩
  | @code depth next depth' s c cs n ha hi hr _ ih =>
    cases hm with
    | here => omega
    | inert ha' hi' =>
      obtain ⟨rfl, rfl⟩ := List.cons.inj (ha.symm.trans ha')
      simp [hi] at hi'
    | code ha' hi' hs' ht =>
      obtain ⟨rfl, rfl⟩ := List.cons.inj (ha.symm.trans ha')
      have hraw := rawStep_eq_ok_iff.mp hr
      rcases matchStep_eq_ok_iff.mp hs' with ⟨j, hj, rfl⟩ | ⟨ho, hc, rfl⟩ | ⟨ho, hc, hne, he⟩
      · simp only [hj, Option.isSome_some, true_and, reduceCtorEq, false_and, or_false] at hraw
        obtain ⟨inner', hl, hs⟩ := @ih _ (j :: inner) ht (by simp [hd, hraw]) (by omega)
        exact ⟨inner', hl, .code ha hi hs' hs⟩
      · simp only [ho, hc, Option.isSome_none, Bool.false_eq_true, false_and, and_false, true_and,
          false_or] at hraw
        obtain ⟨inner', hl, hs⟩ := ih ht (by omega) (by omega)
        exact ⟨inner', hl, .code ha hi hs' hs⟩
      · simp only [ho, hc, Option.isSome_none, Bool.false_eq_true, Bool.true_eq_false, false_and,
          and_false, true_and, false_or, or_false] at hraw
        cases inner with
        | nil => simp only [List.length_nil] at hd; omega
        | cons d inner =>
          obtain ⟨rfl, rfl⟩ := List.cons.inj he
          obtain ⟨inner', hl, hs⟩ := ih ht (by simp only [List.length_cons] at hd; omega) (by omega)
          exact ⟨inner', hl, .code ha hi hs' hs⟩

theorem rawStep_eq_error {depth : Nat} (h : rawStep depth c = .error ()) :
    depth = 0 ∧ (c = ',' ∨ isCloser c = true ∧ closerOf? c = none) := by
  unfold rawStep at h
  split at h
  · cases h
  · rename_i ho
    split at h
    · rename_i hc
      cases depth with
      | zero => exact ⟨rfl, .inr ⟨hc, by simpa using ho⟩⟩
      | succ depth => cases h
    · split at h
      · rename_i hz
        exact ⟨hz.2, .inl hz.1⟩
      · cases h

theorem rawLength_eq (s : Cursor) : rawLength s.previous s.ahead =
    (scanFrom rawStep 0 s).elim s.ahead.length Prod.snd := by
  rw [scanFrom, rawLength]
  split <;> simp [*]

/-- What a raw scan passes outside brackets is part of the raw text. -/
theorem rawLength_of_scans {n : Nat} (h : Scans rawStep 0 s n 0) : rawLength s.previous s.ahead =
    n + rawLength (s.forward n).previous (s.forward n).ahead := by
  have hn := h.le_length
  rw [rawLength_eq, rawLength_eq, h.scanFrom_eq]
  cases scanFrom rawStep 0 (s.forward n) with
  | none =>
    simp only [Option.map_none, Option.elim_none, Cursor.forward_ahead, List.length_drop]
    omega
  | some outcome => rfl

theorem rawLength_le (s : Cursor) : rawLength s.previous s.ahead ≤ s.ahead.length := by
  rw [rawLength_eq]
  cases h : scanFrom rawStep 0 s with
  | none => exact Nat.le_refl _
  | some outcome =>
    obtain ⟨final, c, cs, hsc, -, -, -⟩ := scans_of_scanFrom h
    exact hsc.le_length

theorem rawLength_comma (h : s.next? = some ',') : rawLength s.previous s.ahead = 0 := by
  obtain ⟨cs, ha⟩ := List.head?_eq_some_iff.mp h
  have hhalt : scanFrom rawStep 0 s = some ((), 0) :=
    scanFrom_halt ha ((mark_of_mem (by simp)).item _ _) (by decide)
  rw [rawLength_eq, hhalt]
  rfl

/-- Raw text goes on until a comma, a closing bracket or the end. -/
theorem solid_behind_raw (s : Cursor) :
    Solid Text.isBlank (s.forward (rawLength s.previous s.ahead)).ahead := by
  rw [rawLength_eq]
  cases h : scanFrom rawStep 0 s with
  | none =>
    rw [Option.elim_none, Cursor.forward_ahead, List.drop_length]
    exact solid_nil
  | some outcome =>
    obtain ⟨⟨⟩, n⟩ := outcome
    obtain ⟨depth, c, cs, -, ha, -, hst⟩ := scans_of_scanFrom h
    rw [Option.elim_some, ha]
    rcases (rawStep_eq_error hst).2 with rfl | ⟨hc, -⟩
    · exact solid_cons (by decide) (by decide) cs
    · rcases isCloser_cases hc with rfl | rfl | rfl <;> exact solid_cons (by decide) (by decide) cs

/-- A text that starts with a closing bracket cannot be read to its end with one bracket open. -/
theorem not_scans_closer {m : Nat} (ha : s.ahead = c :: cs) (hc : isCloser c = true)
    (ho : closerOf? c = none) (hm : m ≠ 0) (k : Char) : ¬ Scans matchStep [k] s m [k] := by
  intro h
  cases h with
  | here => exact hm rfl
  | inert ha' hi' =>
    obtain ⟨rfl, rfl⟩ := List.cons.inj (ha.symm.trans ha')
    simp [Item.at_bracket (.inr hc)] at hi'
  | code ha' hi' hs' =>
    obtain ⟨rfl, rfl⟩ := List.cons.inj (ha.symm.trans ha')
    rcases matchStep_eq_ok_iff.mp hs' with ⟨j, hj, -⟩ | ⟨-, hc', -⟩ | ⟨-, -, hne, he⟩
    · simp [ho] at hj
    · simp [hc] at hc'
    · exact hne (List.cons.inj he).2.symm

/-- Raw text in a level text ends at a comma or at the end. -/
theorem Level.scans_raw (h : Level s) {awaited : List Char} (hne : awaited ≠ []) :
    Scans matchStep awaited s (rawLength s.previous s.ahead) awaited ∧
      (rawLength s.previous s.ahead = s.ahead.length ∨
        (s.forward (rawLength s.previous s.ahead)).next? = some ',') := by
  have hraw := rawLength_eq s
  cases hs : scanFrom rawStep 0 s with
  | none =>
    rw [hs] at hraw
    exact ⟨hraw ▸ h awaited hne, .inl hraw⟩
  | some outcome =>
    obtain ⟨⟨⟩, n⟩ := outcome
    rw [hs, Option.elim_some] at hraw
    rw [hraw]
    obtain ⟨depth, c, cs, hsc, ha, hi, hst⟩ := scans_of_scanFrom hs
    obtain ⟨rfl, hc⟩ := rawStep_eq_error hst
    have hlevel : Scans matchStep ([] ++ [')']) s s.ahead.length [')'] := h [')'] (by simp)
    obtain ⟨inner, hl, hm⟩ := hsc.matching hlevel rfl hsc.le_length
    obtain rfl := List.length_eq_zero_iff.mp hl
    obtain ⟨inner, hf, hb⟩ := hm.rebase (List.nil_append _).symm
    obtain rfl : inner = [] := by simpa using hf
    refine ⟨hb awaited hne, .inr ?_⟩
    rcases hc with rfl | ⟨hc, ho⟩
    · rw [Cursor.next?, ha]
      rfl
    · -- A closing bracket outside all others would close what the level text leaves open.
      have hlt : s.ahead.length - n ≠ 0 := by
        have := congrArg List.length ha
        simp only [Cursor.forward_ahead, List.length_drop, List.length_cons] at this
        omega
      exact absurd ((hb [')'] (by simp)).tail hlevel hsc.le_length) (not_scans_closer ha hc ho hlt _)

end WidgetJsx.Expression
