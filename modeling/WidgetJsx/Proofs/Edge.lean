import WidgetJsx.Proofs.Passage
import WidgetJsx.Proofs.TypeArguments

/-! Edges between the items of a text. What stands in front of an edge where a gap or the end follows is
read in one way only: the same words, numbers and literals are found in it, and every scan takes the same
steps through it. -/

namespace WidgetJsx.Expression

open Text (Cursor)

/-- A scan that nothing halts. -/
def passOn (_ : Unit) (_ : Char) : Except Unit Unit := .ok ()

/-- Two items, or an item and an end of the text, meet `n` characters ahead. -/
abbrev Edge (s : Cursor) (n : Nat) : Prop := Scans passOn () s n ()

variable {σ α : Type} {step : σ → Char → Except α σ} {state final : σ} {s t : Cursor} {m n : Nat}

theorem Scans.edge (h : Scans step state s n final) : Edge s n := by
  induction h with
  | here => exact .here _ _
  | code ha hi _ _ ih => exact .code ha hi rfl ih
  | inert ha hi _ ih => exact .inert ha hi ih

/-- A scan comes to an edge, unless it halts in front of it. -/
theorem Edge.scans_or {u v : Unit} (h : Scans passOn u s n v) (step : σ → Char → Except α σ)
    (state : σ) : (∃ final, Scans step state s n final) ∨
      ∃ m < n, ∃ a, scanFrom step state s = some (a, m) := by
  induction h generalizing state with
  | here => exact .inl ⟨state, .here _ _⟩
  | @code _ _ _ s c cs n ha hi _ _ ih =>
    cases hs : step state c with
    | error a => exact .inr ⟨0, by omega, a, scanFrom_halt ha hi hs⟩
    | ok next =>
      rcases ih next with ⟨final, hf⟩ | ⟨m, hm, a, hf⟩
      · exact .inl ⟨final, .code ha hi hs hf⟩
      · exact .inr ⟨1 + m, by omega, a, by rw [scanFrom_code ha hi hs, hf]; rfl⟩
  | @inert _ _ s c cs k n ha hi _ ih =>
    rcases ih state with ⟨final, hf⟩ | ⟨m, hm, a, hf⟩
    · exact .inl ⟨final, .inert ha hi hf⟩
    · exact .inr ⟨k + 1 + m, by omega, a, by rw [scanFrom_inert ha hi, hf]; rfl⟩

theorem Item.at_take_code {previous c : Char} {cs : List Char} (h : Item.at previous c cs = .code)
    (m : Nat) : Item.at previous c (cs.take m) = .code := by
  rw [← List.take_append_drop m cs] at h
  simpa using Item.at_congr_code (w := []) (.inl rfl) h

theorem Item.at_take_inert {previous c : Char} {cs : List Char} {k m : Nat}
    (h : Item.at previous c cs = .inert k) (hk : k ≤ m) :
    Item.at previous c (cs.take m) = .inert k := by
  have hl := Item.le_length h
  rw [← List.take_append_drop m cs] at h
  have hu : k ≤ (cs.take m).length := by
    rw [List.length_take]
    omega
  simpa using Item.at_congr_inert (w := []) (.inl rfl) hu h

/-- A text that is cut off at an edge is scanned as it is scanned in front of what follows it. -/
theorem Scans.of_within (h : Scans step state (s.within m) n final) (he : Edge s m) :
    Scans step state s n final := by
  -- The scan and the edge come by the same items, so a step of the one is a step of the other.
  generalize hs : s.within m = t at h
  induction h generalizing s m with
  | here => exact .here _ _
  | @code state next final t c cs n ha hi hst _ ih =>
    subst hs
    cases he with
    | here => simp at ha
    | code ha' hi' _ he =>
      rw [Cursor.within_ahead, ha', Nat.add_comm, List.take_succ_cons] at ha
      obtain ⟨rfl, rfl⟩ := List.cons.inj ha
      exact .code ha' hi' hst (ih he (by rw [Cursor.forward_within (by omega), Nat.add_sub_cancel_left]))
    | @inert _ _ _ _ _ k m ha' hi' he =>
      rw [Cursor.within_ahead, ha', show k + 1 + m = k + m + 1 by omega, List.take_succ_cons] at ha
      obtain ⟨rfl, rfl⟩ := List.cons.inj ha
      rw [Cursor.within_previous, Item.at_take_inert hi' (by omega)] at hi
      cases hi
  | @inert state final t c cs k n ha hi _ ih =>
    subst hs
    cases he with
    | here => simp at ha
    | code ha' hi' _ he =>
      rw [Cursor.within_ahead, ha', Nat.add_comm, List.take_succ_cons] at ha
      obtain ⟨rfl, rfl⟩ := List.cons.inj ha
      rw [Cursor.within_previous, Item.at_take_code hi'] at hi
      cases hi
    | @inert _ _ _ _ _ k' m ha' hi' he =>
      rw [Cursor.within_ahead, ha', show k' + 1 + m = k' + m + 1 by omega, List.take_succ_cons] at ha
      obtain ⟨rfl, rfl⟩ := List.cons.inj ha
      rw [Cursor.within_previous, Item.at_take_inert hi' (by omega)] at hi
      cases hi
      exact .inert ha' hi' (ih he (by
        rw [Cursor.forward_within (by omega), Nat.add_sub_cancel_left]))

theorem startsString_previous {p q : Char} (h : isNameChar p = isNameChar q) (cs : List Char) :
    startsString p cs = startsString q cs := by
  cases cs with
  | nil => rfl
  | cons c cs => rw [startsString_cons, startsString_cons, h]

theorem Item.at_previous {p q : Char} (h : isNameChar p = isNameChar q) (c : Char) (cs : List Char) :
    Item.at p c cs = Item.at q c cs := by
  simp only [Item.at, startsString_previous h]

/-- Of the text behind it, a reader sees only whether a name runs up to it, and at the end not even
that. -/
structure Abreast (s t : Cursor) : Prop where
  ahead : s.ahead = t.ahead
  previous : s.ahead ≠ [] → isNameChar s.previous = isNameChar t.previous

theorem Abreast.symm (h : Abreast s t) : Abreast t s :=
  ⟨h.ahead.symm, fun hne => (h.previous (h.ahead ▸ hne)).symm⟩

theorem Abreast.forward (h : Abreast s t) (n : Nat) : Abreast (s.forward n) (t.forward n) := by
  refine ⟨by rw [Cursor.forward_ahead, Cursor.forward_ahead, h.ahead], fun hne => ?_⟩
  have hs : s.ahead ≠ [] := by
    intro hs
    simp [hs] at hne
  simp only [Cursor.previous, Cursor.forward_behind, h.ahead]
  cases ht : (t.ahead.take n).reverse with
  | nil => exact h.previous hs
  | cons c cs => rfl

theorem Abreast.startsString (h : Abreast s t) :
    startsString s.previous s.ahead = Expression.startsString t.previous t.ahead := by
  rw [h.ahead]
  cases ht : t.ahead with
  | nil => rfl
  | cons c cs => exact startsString_previous (h.previous (by simp [h.ahead, ht])) _

theorem Scans.abreast (h : Scans step state s n final) (ht : Abreast s t) :
    Scans step state t n final := by
  induction h generalizing t with
  | here => exact .here _ _
  | @code _ _ _ s c cs _ ha hi hs _ ih =>
    have hit := Item.at_previous (ht.previous (by simp [ha])) c cs ▸ hi
    exact .code (ht.ahead ▸ ha) hit hs (ih (ht.forward 1))
  | @inert _ _ s c cs k _ ha hi _ ih =>
    have hit := Item.at_previous (ht.previous (by simp [ha])) c cs ▸ hi
    exact .inert (ht.ahead ▸ ha) hit (ih (ht.forward (k + 1)))

theorem Abreast.scanFrom (h : Abreast s t) (step : σ → Char → Except α σ) (state : σ) :
    scanFrom step state s = Expression.scanFrom step state t := by
  unfold Expression.scanFrom scanCode
  rw [h.ahead]
  cases ht : t.ahead with
  | nil => rfl
  | cons c cs => rw [scanCode.go, scanCode.go, Item.at_previous (h.previous (by simp [h.ahead, ht]))]

/-- A gap may start here, and nothing else but the end. -/
def Loose (cs : List Char) : Prop := ∀ c ∈ cs.head?, Text.isBlank c = true ∨ c = '/'

section

variable {u rest : List Char} {c : Char} {cs : List Char}

theorem Loose.breaks (h : Loose rest) : Breaks rest := by
  intro c hc
  rcases h c hc with hb | rfl
  · exact isBlank_breaks hb
  · decide

theorem takeWhile_append_of_head {p : Char → Bool} (h : ∀ c ∈ rest.head?, p c = false)
    (u : List Char) : (u ++ rest).takeWhile p = u.takeWhile p := by
  induction u with
  | nil =>
    cases rest with
    | nil => rfl
    | cons c rest => simp [h c rfl]
  | cons c u ih => simp only [List.cons_append, List.takeWhile_cons, ih]

theorem Loose.not_isNameStart (h : Loose (c :: cs)) : isNameStart c = false := by
  have := (h.breaks c rfl).1
  simp only [isNameChar, Bool.or_eq_false_iff] at this
  exact this.1

theorem Loose.nameLength (h : Loose rest) (u : List Char) : nameLength (u ++ rest) = nameLength u := by
  cases u with
  | nil =>
    cases rest with
    | nil => rfl
    | cons c rest => simp [Expression.nameLength, h.not_isNameStart]
  | cons c u =>
    rw [List.cons_append, Expression.nameLength, Expression.nameLength,
      takeWhile_append_of_head fun d hd => (h.breaks d hd).1]

theorem Breaks.pathLength_go (h : Breaks rest) (n : Nat) (u : List Char) :
    pathLength.go n (u ++ rest) = pathLength.go n u := by
  fun_induction pathLength.go n u with
  | case1 n c cs hc ih =>
    rw [← ih]
    simp [pathLength.go, hc]
  | case2 n c cs hc => simp [pathLength.go, hc]
  | case3 n c cs hd hc ih => rw [← ih, List.cons_append, pathLength_go_cons hc]
  | case4 n c cs hd hc =>
    have hstop : PathStops (c :: (cs ++ rest)) := by
      refine pathStops_cons (by simpa using hc) fun d ds he hcs => ?_
      cases cs with
      | nil =>
        have hb := h d (by rw [List.nil_append] at hcs; simp [hcs])
        simp only [isNameChar, Bool.or_eq_false_iff] at hb
        exact hb.1.1
      | cons e es => exact absurd rfl (hd e es he)
    exact hstop.go_eq n
  | case5 n => exact h.pathStops.go_eq n

theorem Loose.pathLength (h : Loose rest) (u : List Char) : pathLength (u ++ rest) = pathLength u := by
  cases u with
  | nil =>
    cases rest with
    | nil => rfl
    | cons c rest => simp [Expression.pathLength, h.not_isNameStart]
  | cons c u =>
    rw [List.cons_append, Expression.pathLength, Expression.pathLength, h.breaks.pathLength_go]

theorem Loose.digitsLength (h : Loose rest) (u : List Char) :
    digitsLength (u ++ rest) = digitsLength u := by
  rw [Expression.digitsLength, Expression.digitsLength,
    takeWhile_append_of_head h.breaks.ends.isDigit]

theorem Loose.fractionLength (h : Loose rest) (u : List Char) :
    fractionLength (u ++ rest) = fractionLength u := by
  cases u with
  | nil => exact h.breaks.fractionLength_eq
  | cons c u =>
    by_cases hc : c = '.'
    · subst hc
      rw [List.cons_append, Expression.fractionLength, Expression.fractionLength, h.digitsLength]
    · unfold Expression.fractionLength
      split <;> split <;> simp_all

theorem digitsLength_le (u : List Char) : digitsLength u ≤ u.length :=
  (List.takeWhile_sublist _).length_le

theorem Loose.decimalLength (h : Loose rest) (u : List Char) :
    decimalLength (u ++ rest) = decimalLength u := by
  rw [decimalLength_eq, decimalLength_eq, h.digitsLength,
    List.drop_append_of_le_length (digitsLength_le u), h.fractionLength]

theorem Loose.hexLength (h : Loose rest) (u : List Char) : hexLength (u ++ rest) = hexLength u := by
  have hx := h.breaks.not_hex
  cases u with
  | nil =>
    cases rest with
    | nil => rfl
    | cons c rest =>
      refine hexLength_eq_zero fun hc => ?_
      subst hc
      have := (h.breaks '0' rfl).1
      exact absurd this (by decide)
  | cons c u =>
    cases u with
    | nil => rw [List.singleton_append, hexLength_eq_zero fun _ => hx, hexLength_eq_zero (by simp)]
    | cons x u =>
      by_cases hc : c = '0' ∧ (x = 'x' ∨ x = 'X')
      · obtain ⟨rfl, hx⟩ := hc
        rw [List.cons_append, List.cons_append, hexLength_cons hx, hexLength_cons hx,
          takeWhile_append_of_head h.breaks.ends.isHexDigit]
      · have hzero : ∀ v, Expression.hexLength (c :: x :: v) = 0 := fun v =>
          hexLength_eq_zero fun hc' y hy => by
            obtain rfl : x = y := by simpa using hy
            exact not_or.mp fun hor => hc ⟨hc', hor⟩
        rw [List.cons_append, List.cons_append, hzero, hzero]

theorem Loose.numberLength (h : Loose rest) (u : List Char) :
    numberLength (u ++ rest) = numberLength u := by
  by_cases hx : Expression.hexLength u = 0
  · have hx' := h.hexLength u
    rw [hx] at hx'
    cases u with
    | nil =>
      have hm : rest.head? ≠ some '-' := fun hm => by
        rcases h '-' hm with hb | hb
        · exact absurd hb (by decide)
        · exact absurd hb (by decide)
      rw [numberLength_unsigned hx' hm, h.decimalLength]
      rfl
    | cons c u =>
      by_cases hc : c = '-'
      · subst hc
        rw [List.cons_append, numberLength_minus, numberLength_minus, h.decimalLength]
      · rw [numberLength_unsigned hx' (by simpa using hc), numberLength_unsigned hx (by simpa using hc),
          h.decimalLength]
  · rw [numberLength_of_hex hx, numberLength_of_hex (by rwa [h.hexLength]), h.hexLength]

theorem Loose.ends_append_iff (h : Loose rest) (u : List Char) : Ends (u ++ rest) ↔ Ends u := by
  cases u with
  | nil => exact iff_of_true h.breaks.ends (by simp [Ends])
  | cons c u => rfl

theorem Loose.startsWithWord (h : Loose rest) (u : List Char) {word : String}
    (hw : IsName word.toList) : startsWithWord word (u ++ rest) = startsWithWord word u := by
  rw [Bool.eq_iff_iff, startsWithWord_iff, startsWithWord_iff]
  constructor
  · rintro ⟨more, he, hm⟩
    rcases List.append_eq_append_iff.mp he with ⟨v, hv, rfl⟩ | ⟨v, rfl, rfl⟩
    · -- The word would run into what follows.
      cases v with
      | nil => exact ⟨[], by simpa using hv.symm, by simp [Ends]⟩
      | cons c v =>
        have hc := hw.isNameChar c (by simp [hv])
        simp [(h.breaks c rfl).1] at hc
    · exact ⟨v, rfl, (h.ends_append_iff v).mp hm⟩
  · rintro ⟨more, rfl, hm⟩
    exact ⟨more ++ rest, List.append_assoc _ _ _, (h.ends_append_iff more).mpr hm⟩

theorem Loose.startsString (h : Loose rest) (previous : Char) (u : List Char) :
    startsString previous (u ++ rest) = startsString previous u := by
  have hq : rest.head?.any isQuote = false := by
    cases rest with
    | nil => rfl
    | cons c rest => simpa using (h.breaks c rfl).2.2
  cases u with
  | nil =>
    cases rest with
    | nil => rfl
    | cons c rest =>
      have hc := h.breaks c rfl
      have hr : c ≠ 'r' := by
        rintro rfl
        exact absurd hc.1 (by decide)
      exact startsString_eq_false hc.2.2 hr _ _
  | cons c u =>
    rw [List.cons_append, startsString_cons, startsString_cons]
    cases u with
    | nil => rw [List.nil_append, hq]; rfl
    | cons d u => rfl

end

/-- What fills a gap outside comments: white space, and perhaps some marks. -/
structure Filler (f : Char → Bool) : Prop where
  blank : ∀ c, Text.isBlank c = true → f c = true
  mark : ∀ c, f c = true → Mark c

theorem filler_isBlank : Filler Text.isBlank := ⟨fun _ => id, fun _ => mark_of_isBlank⟩

theorem filler_separators : Filler fun c => Text.isBlank c || c == ',' := by
  refine ⟨fun c hc => by simp [hc], fun c hc => ?_⟩
  rcases (Bool.or_eq_true _ _).mp hc with hc | hc
  · exact mark_of_isBlank hc
  · exact mark_of_mem (by simp_all)

theorem filler_terminators : Filler fun c => Text.isBlank c || c == ',' || c == ';' := by
  refine ⟨fun c hc => by simp [hc], fun c hc => ?_⟩
  rcases (Bool.or_eq_true _ _).mp hc with hc | hc
  · exact filler_separators.mark c hc
  · exact mark_of_mem (by simp_all)

section

variable {f : Char → Bool} {u rest behind : List Char}

theorem Filler.slash (h : Filler f) : f '/' = false :=
  Bool.eq_false_iff.mpr fun hs => (h.mark _ hs).not_slash rfl

theorem Filler.solid_string (h : Filler f) {previous c : Char} {cs : List Char}
    (hs : startsString previous (c :: cs) = true) (ds : List Char) : Solid f (c :: ds) := by
  have hc : isQuote c = true ∨ c = 'r' := by
    rcases startsString_cases hs with ⟨q, cs, he, -, -⟩ | ⟨q, cs, he, hq⟩
    · exact .inr (List.cons.inj he).1
    · exact .inl ((List.cons.inj he).1 ▸ hq)
  refine solid_cons (Bool.eq_false_iff.mpr fun hf => ?_) ?_ ds
  · rcases hc with hc | hc
    · simp [(h.mark c hf).not_quote] at hc
    · exact (h.mark c hf).not_raw hc
  · rintro rfl
    exact absurd hc (by decide)

/-- A gap ends in front of an edge, or it goes on behind. -/
theorem Filler.gapLength_append (h : Filler f) {a b : Unit} {n : Nat}
    (he : Scans passOn a ⟨behind, u ++ rest⟩ n b) (hn : u.length = n) :
    (gapLength f u < n ∧ gapLength f (u ++ rest) = gapLength f u) ∨
      (gapLength f u = n ∧ gapLength f (u ++ rest) = n + gapLength f rest) := by
  -- By induction on the scan: an item is filler, or it ends the gap, or it is a comment in it.
  generalize hs : Cursor.mk behind (u ++ rest) = s at he
  induction he generalizing behind u with
  | here =>
    obtain rfl := List.length_eq_zero_iff.mp hn
    exact .inr ⟨rfl, by simp⟩
  | @code _ _ _ s c cs n ha hi _ _ ih =>
    subst hs
    cases u with
    | nil => simp only [List.length_nil] at hn; omega
    | cons d u =>
      obtain ⟨rfl, rfl⟩ := List.cons.inj ha
      have hc : ¬ startsComment d (u ++ rest) := (Item.at_eq_code_iff.mp hi).2
      have hcu : ¬ startsComment d u := fun hu => hc (hu.append rest)
      have hlen : u.length = n := by simp only [List.length_cons] at hn; omega
      rw [List.cons_append, gapLength_cons hc, gapLength_cons hcu]
      by_cases hf : f d = true
      · rw [if_pos hf, if_pos hf]
        rcases ih hlen rfl with ⟨h₁, h₂⟩ | ⟨h₁, h₂⟩
        · exact .inl ⟨by omega, by rw [h₂]⟩
        · exact .inr ⟨by omega, by rw [h₂]; omega⟩
      · rw [if_neg hf, if_neg hf]
        exact .inl ⟨by omega, rfl⟩
  | @inert _ _ s c cs k n ha hi _ ih =>
    subst hs
    have hk : k + 1 ≤ u.length := by omega
    rcases Item.at_eq_inert_iff.mp hi with ⟨hstr, -⟩ | ⟨-, -, hl⟩
    · cases u with
      | nil => simp only [List.length_nil] at hn; omega
      | cons d u =>
        obtain ⟨rfl, -⟩ := List.cons.inj ha
        have hz : ∀ ds, gapLength f (d :: ds) = 0 := h.solid_string hstr
        rw [List.cons_append, hz, hz]
        exact .inl ⟨by omega, rfl⟩
    · rw [← ha] at hl
      have hu : triviaLength u = k + 1 := (gapLength_of_append (hl.trans_le hk)).trans hl
      have hfront := gapLength_eq_add h.blank h.slash u
      have hwhole := gapLength_eq_add h.blank h.slash (u ++ rest)
      rw [← triviaLength, hu] at hfront
      rw [← triviaLength, hl, List.drop_append_of_le_length hk] at hwhole
      rw [hfront, hwhole]
      rcases ih (u := u.drop (k + 1)) (by rw [List.length_drop]; omega)
        (Cursor.forward_append_of_le hk _ _).symm with ⟨h₁, h₂⟩ | ⟨h₁, h₂⟩
      · exact .inl ⟨by omega, by rw [h₂]⟩
      · exact .inr ⟨by omega, by rw [h₂]; omega⟩

end

def isAngle (c : Char) : Bool := c == '<' || c == '>'

theorem filter_isAngle_of_blanks {cs : List Char} (h : ∀ c ∈ cs, Text.isBlank c = true) :
    cs.filter isAngle = [] := by
  refine List.filter_eq_nil_iff.mpr fun c hc ha => ?_
  rcases (Bool.or_eq_true _ _).mp ha with ha | ha
  · exact absurd (beq_iff_eq.mp ha ▸ h c hc) (by decide)
  · exact absurd (beq_iff_eq.mp ha ▸ h c hc) (by decide)

/-- How many angle brackets are open behind a text that closes none in vain. -/
def angleDepth (depth : Nat) (cs : List Char) : Nat :=
  cs.foldl (fun depth c => if c = '<' then depth + 1 else if c = '>' then depth - 1 else depth) depth

section

variable {u : List Char} {depth n k : Nat}

/-- Angle brackets that are closed in front of a place are closed there whatever follows. -/
theorem angleClosing?_go_of_some (h : angleClosing?.go depth n u = some k) :
    k < n + u.length ∧ ∀ rest, angleClosing?.go depth n (u ++ rest) = some k := by
  induction u generalizing depth n with
  | nil => cases h
  | cons c u ih =>
    have hnext : ∀ {d}, angleClosing?.go d (n + 1) u = some k →
        k < n + (c :: u).length ∧ ∀ rest, angleClosing?.go d (n + 1) (u ++ rest) = some k := by
      intro d hd
      obtain ⟨hk, hrest⟩ := ih hd
      exact ⟨by rw [List.length_cons]; omega, hrest⟩
    simp only [List.cons_append, angleClosing?.go] at h ⊢
    by_cases ho : c = '<'
    · simp only [if_pos ho] at h ⊢
      exact hnext h
    by_cases hc : c = '>'
    · simp only [if_neg ho, if_pos hc] at h ⊢
      by_cases hd : depth ≤ 1
      · rw [if_pos hd] at h
        cases h
        exact ⟨by simp, fun _ => by rw [if_pos hd]⟩
      · simp only [if_neg hd] at h ⊢
        exact hnext h
    · simp only [if_neg ho, if_neg hc] at h ⊢
      exact hnext h

/-- Where they are not, the count goes on behind. -/
theorem angleClosing?_go_of_none (h : angleClosing?.go depth n u = none) (rest : List Char) :
    angleClosing?.go depth n (u ++ rest) = angleClosing?.go (angleDepth depth u) (n + u.length) rest := by
  induction u generalizing depth n with
  | nil => rfl
  | cons c u ih =>
    have hl : n + (c :: u).length = n + 1 + u.length := by
      rw [List.length_cons]
      omega
    rw [hl, angleDepth, List.foldl_cons, ← angleDepth]
    simp only [List.cons_append, angleClosing?.go] at h ⊢
    by_cases ho : c = '<'
    · simp only [if_pos ho] at h ⊢
      exact ih h
    by_cases hc : c = '>'
    · simp only [if_neg ho, if_pos hc] at h ⊢
      by_cases hd : depth ≤ 1
      · rw [if_pos hd] at h
        cases h
      · simp only [if_neg hd] at h ⊢
        exact ih h
    · simp only [if_neg ho, if_neg hc] at h ⊢
      exact ih h

/-- Only the angle brackets of a text decide whether they are closed in it. -/
theorem angleClosing?_go_eq_none_iff (depth m n : Nat) (cs : List Char) :
    angleClosing?.go depth m cs = none ↔ angleClosing?.go depth n (cs.filter isAngle) = none := by
  induction cs generalizing depth m n with
  | nil => exact iff_of_true rfl rfl
  | cons c cs ih =>
    by_cases ho : c = '<'
    · subst ho
      exact ih _ _ _
    by_cases hc : c = '>'
    · subst hc
      rw [List.filter_cons_of_pos (by decide)]
      simp only [angleClosing?.go, if_neg ho, if_true]
      split
      · simp
      · exact ih _ _ _
    · rw [angleClosing?.go, if_neg ho, if_neg hc, List.filter_cons_of_neg (by simp [isAngle, ho, hc])]
      exact ih _ _ _

theorem angleDepth_filter (depth : Nat) (cs : List Char) :
    angleDepth depth (cs.filter isAngle) = angleDepth depth cs := by
  induction cs generalizing depth with
  | nil => rfl
  | cons c cs ih =>
    by_cases ho : c = '<'
    · subst ho
      exact ih _
    by_cases hc : c = '>'
    · subst hc
      exact ih _
    · rw [List.filter_cons_of_neg (by simp [isAngle, ho, hc]), ih, angleDepth, angleDepth,
        List.foldl_cons, if_neg ho, if_neg hc]

end

theorem angleClosing?_lt {u : List Char} {k : Nat} (h : angleClosing? u = some k) : k < u.length := by
  simpa using (angleClosing?_go_of_some h).1

theorem angleClosing?_go_add (depth m n : Nat) (cs : List Char) :
    angleClosing?.go depth (m + n) cs = (angleClosing?.go depth n cs).map (m + ·) := by
  induction cs generalizing depth n with
  | nil => rfl
  | cons c cs ih =>
    simp only [angleClosing?.go, Nat.add_assoc, ih]
    split
    · rfl
    split
    · split <;> rfl
    · rfl

theorem typedList?_eq_none_iff : typedList? s = none ↔ ∀ n, angleClosing? s.ahead = some n →
    ((s.ahead.drop (n + 1)).drop (triviaLength (s.ahead.drop (n + 1)))).head? ≠ some '[' := by
  simp only [typedList?, Cursor.next?, Cursor.forward_ahead, ← List.drop_drop]
  cases angleClosing? s.ahead with
  | none => simp
  | some n =>
    dsimp only
    split
    next h => exact iff_of_false (by simp) fun hn => hn n rfl h
    next h => exact iff_of_true rfl fun k hk => by rwa [← Option.some.inj hk]

theorem typedList?_congr (ha : s.ahead = t.ahead) (h : typedList? s = none) : typedList? t = none := by
  rw [typedList?_eq_none_iff] at h ⊢
  rwa [← ha]

/-- What follows does not change what comes behind a gap. -/
theorem head?_behind_gap_append {u : List Char} {c : Char} (hc : Text.isBlank c = false) (hs : c ≠ '/')
    (h : (u.drop (triviaLength u)).head? = some c) (v : List Char) :
    ((u ++ v).drop (triviaLength (u ++ v))).head? = some c := by
  obtain ⟨g, rest, rfl, hl, -, hgap⟩ := gap_split Text.isBlank u
  rw [triviaLength, hl, List.drop_left] at h
  obtain ⟨rest, rfl⟩ := List.head?_eq_some_iff.mp h
  have hlen : triviaLength (g ++ c :: (rest ++ v)) = g.length :=
    (hgap (List.cons_ne_nil _ _)).gapLength_eq (by decide) (solid_cons hc hs _)
  rw [List.append_assoc, List.cons_append, hlen, List.drop_left]
  rfl

/-- Where no types stand in front of a list, none do in part of the text. -/
theorem typedList?_within (h : typedList? s = none) (m : Nat) : typedList? (s.within m) = none := by
  rw [typedList?_eq_none_iff, Cursor.within_ahead] at *
  intro n hn hhead
  have hall : angleClosing? s.ahead = some n := by
    rw [← List.take_append_drop m s.ahead]
    exact (angleClosing?_go_of_some hn).2 _
  have hdrop : s.ahead.drop (n + 1) = (s.ahead.take m).drop (n + 1) ++ s.ahead.drop m := by
    rw [← List.drop_append_of_le_length (angleClosing?_lt hn), List.take_append_drop]
  refine h n hall ?_
  rw [hdrop]
  exact head?_behind_gap_append (by decide) (by decide) hhead _

end WidgetJsx.Expression
