import WidgetJsx.Proofs.Name

/-! The grammar of number literals beside the function that measures them. -/

namespace WidgetJsx.Expression

/-- At least one digit, and nothing else. -/
structure DigitsOf (isDigit : Char → Bool) (cs : List Char) : Prop where
  ne_nil : cs ≠ []
  all : ∀ c ∈ cs, isDigit c = true

/-- Digits in base ten with a sign and with a point among them, or digits in base sixteen. -/
inductive IsNumber : List Char → Prop
  | whole {sign ds : List Char} : sign = [] ∨ sign = ['-'] → DigitsOf Char.isDigit ds →
      IsNumber (sign ++ ds)
  | decimal {sign ds es : List Char} : sign = [] ∨ sign = ['-'] → DigitsOf Char.isDigit ds →
      DigitsOf Char.isDigit es → IsNumber (sign ++ (ds ++ '.' :: es))
  | hex {x : Char} {ds : List Char} : x = 'x' ∨ x = 'X' → DigitsOf isHexDigit ds →
      IsNumber ('0' :: x :: ds)

theorem forall_ascii {P : Char → Prop} (h : ∀ n < 128, P (Char.ofNat n)) {c : Char}
    (hc : c.toNat < 128) : P c :=
  Char.ofNat_toNat c ▸ h c.toNat hc

theorem isHexDigit_of_isDigit {c : Char} (h : c.isDigit = true) : isHexDigit c = true := by
  simp [isHexDigit, h]

theorem isHexDigit_lt {c : Char} (h : isHexDigit c = true) : c.toNat < 128 := by
  simp only [isHexDigit, Char.isDigit, Bool.or_eq_true, Bool.and_eq_true, decide_eq_true_eq,
    ge_iff_le, Char.le_def, UInt32.le_iff_toNat_le] at h
  simp only [Char.reduceVal, UInt32.reduceToNat] at h
  change c.val.toNat < 128
  omega

theorem isNameChar_of_isHexDigit {c : Char} (h : isHexDigit c = true) : isNameChar c = true :=
  forall_ascii (P := fun c => isHexDigit c = true → isNameChar c = true) (by decide)
    (isHexDigit_lt h) h

theorem isNameStart_eq_false_of_isDigit {c : Char} (h : c.isDigit = true) :
    isNameStart c = false :=
  forall_ascii (P := fun c => c.isDigit = true → isNameStart c = false) (by decide)
    (isHexDigit_lt (isHexDigit_of_isDigit h)) h

theorem Ends.isHexDigit {cs : List Char} (h : Ends cs) : ∀ c ∈ cs.head?, isHexDigit c = false := by
  intro c hc
  apply Bool.eq_false_iff.mpr
  intro hd
  simpa [isNameChar_of_isHexDigit hd] using h c hc

theorem Ends.isDigit {cs : List Char} (h : Ends cs) : ∀ c ∈ cs.head?, c.isDigit = false := by
  intro c hc
  apply Bool.eq_false_iff.mpr
  intro hd
  simpa [isHexDigit_of_isDigit hd] using h.isHexDigit c hc

theorem DigitsOf.digitsLength_eq {ds rest : List Char} (h : DigitsOf Char.isDigit ds)
    (hr : ∀ c ∈ rest.head?, c.isDigit = false) : digitsLength (ds ++ rest) = ds.length := by
  rw [digitsLength, takeWhile_append_eq h.all hr]

theorem DigitsOf.length_pos {p : Char → Bool} {ds : List Char} (h : DigitsOf p ds) :
    0 < ds.length :=
  List.length_pos_iff.mpr h.ne_nil

/-- The length of a point and digits behind it, or zero. -/
def fractionLength : List Char → Nat
  | '.' :: cs => if digitsLength cs = 0 then 0 else digitsLength cs + 1
  | _ => 0

theorem decimalLength_eq (cs : List Char) : decimalLength cs =
    if digitsLength cs = 0 then 0
    else digitsLength cs + fractionLength (cs.drop (digitsLength cs)) := by
  unfold decimalLength
  split
  · simp [*]
  · rename_i h
    rw [if_neg h]
    split
    · rename_i ds hd
      simp only [hd, fractionLength]
      split <;> simp_all
      omega
    · rename_i hd
      rw [fractionLength.eq_def]
      split
      · exact absurd ‹_› (hd _)
      · rfl

theorem Breaks.fractionLength_eq {cs : List Char} (h : Breaks cs) : fractionLength cs = 0 := by
  unfold fractionLength
  split
  · exact absurd rfl (h '.' rfl).2.1
  · rfl

theorem DigitsOf.decimalLength_eq {ds r : List Char} (h : DigitsOf Char.isDigit ds)
    (hr : ∀ c ∈ r.head?, c.isDigit = false) :
    decimalLength (ds ++ r) = ds.length + fractionLength r := by
  rw [Expression.decimalLength_eq, h.digitsLength_eq hr, if_neg h.length_pos.ne', List.drop_left]

theorem DigitsOf.fractionLength_eq {es rest : List Char} (h : DigitsOf Char.isDigit es)
    (hr : Breaks rest) : fractionLength ('.' :: (es ++ rest)) = es.length + 1 := by
  rw [fractionLength, h.digitsLength_eq hr.ends.isDigit, if_neg h.length_pos.ne']

theorem hexLength_eq_zero {c : Char} {cs : List Char}
    (hx : c = '0' → ∀ x ∈ cs.head?, x ≠ 'x' ∧ x ≠ 'X') : hexLength (c :: cs) = 0 := by
  unfold hexLength
  split
  · rename_i x ds he
    obtain ⟨rfl, rfl⟩ := List.cons.inj he
    rw [if_neg]
    simpa using hx rfl x rfl
  · rfl

theorem hexLength_cons {x : Char} (hx : x = 'x' ∨ x = 'X') (cs : List Char) :
    hexLength ('0' :: x :: cs) = if (cs.takeWhile isHexDigit).length = 0 then 0
      else (cs.takeWhile isHexDigit).length + 2 := by
  rw [hexLength, if_pos hx]
  split <;> simp_all

theorem DigitsOf.hexLength_eq_zero {ds rest : List Char} (h : DigitsOf Char.isDigit ds)
    (hr : ∀ c ∈ rest.head?, c ≠ 'x' ∧ c ≠ 'X') : hexLength (ds ++ rest) = 0 := by
  obtain ⟨hne, hall⟩ := h
  cases ds with
  | nil => exact absurd rfl hne
  | cons d ds =>
    refine Expression.hexLength_eq_zero fun _ x hx => ?_
    cases ds with
    | nil => exact hr x hx
    | cons e ds =>
      obtain rfl : e = x := by simpa using hx
      have he := hall e (by simp)
      constructor <;> rintro rfl <;> simp at he

theorem Breaks.not_hex {rest : List Char} (h : Breaks rest) :
    ∀ c ∈ rest.head?, c ≠ 'x' ∧ c ≠ 'X' := by
  intro c hc
  have := (h c hc).1
  constructor <;> rintro rfl <;> exact absurd this (by decide)

theorem numberLength_of_hex {cs : List Char} (h : hexLength cs ≠ 0) :
    numberLength cs = hexLength cs := by
  unfold numberLength
  split
  · exact absurd ‹_› h
  · rfl

theorem numberLength_minus (cs : List Char) : numberLength ('-' :: cs) =
    if decimalLength cs = 0 then 0 else decimalLength cs + 1 := by
  have hm : hexLength ('-' :: cs) = 0 := hexLength_eq_zero fun h => absurd h (by decide)
  simp only [numberLength, hm]
  split <;> simp_all

theorem numberLength_unsigned {cs : List Char} (hh : hexLength cs = 0)
    (hd : cs.head? ≠ some '-') : numberLength cs = decimalLength cs := by
  unfold numberLength
  rw [hh]
  simp only
  split
  · simp at hd
  · rfl

theorem numberLength_of_digits {sign cs : List Char} (hs : sign = [] ∨ sign = ['-'])
    (hh : hexLength cs = 0) (hd : cs.head? ≠ some '-') (hp : 0 < decimalLength cs) :
    numberLength (sign ++ cs) = sign.length + decimalLength cs := by
  rcases hs with rfl | rfl
  · simpa using numberLength_unsigned hh hd
  · rw [List.singleton_append, numberLength_minus, if_neg hp.ne', List.length_singleton, Nat.add_comm]

theorem IsNumber.numberLength_eq {u rest : List Char} (h : IsNumber u) (hr : Breaks rest) :
    numberLength (u ++ rest) = u.length := by
  have hhead : ∀ {ds more : List Char}, DigitsOf Char.isDigit ds →
      (ds ++ more).head? ≠ some '-' := by
    intro ds more hd he
    cases ds with
    | nil => exact hd.ne_nil rfl
    | cons d ds =>
      obtain rfl : d = '-' := by simpa using he
      exact absurd (hd.all '-' (by simp)) (by decide)
  cases h with
  | @whole sign ds hs hd =>
    have hl := hd.decimalLength_eq hr.ends.isDigit
    rw [hr.fractionLength_eq] at hl
    have hp := hd.length_pos
    rw [List.append_assoc, numberLength_of_digits hs (hd.hexLength_eq_zero hr.not_hex) (hhead hd)
      (by omega), hl, List.length_append, Nat.add_zero]
  | @decimal sign ds es hs hd he =>
    have hl := hd.decimalLength_eq (r := '.' :: (es ++ rest)) (by simp)
    rw [he.fractionLength_eq hr] at hl
    have hp := hd.length_pos
    rw [List.append_assoc, List.append_assoc, List.cons_append,
      numberLength_of_digits hs (hd.hexLength_eq_zero (by simp)) (hhead hd) (by omega), hl]
    simp only [List.length_append, List.length_cons]
  | @hex x ds hx hd =>
    have hp := hd.length_pos
    have hl : hexLength ('0' :: x :: (ds ++ rest)) = ds.length + 2 := by
      rw [hexLength_cons hx, takeWhile_append_eq hd.all hr.ends.isHexDigit, if_neg hp.ne']
    simp only [List.cons_append, numberLength, hl, List.length_cons]

theorem takeWhile_split {p : Char → Bool} (cs : List Char) :
    ∃ rest, cs = cs.takeWhile p ++ rest ∧ ∀ c ∈ rest.head?, p c = false :=
  ⟨cs.dropWhile p, List.takeWhile_append_dropWhile.symm, fun c hc => by
    have := List.head?_dropWhile_not p cs
    rw [hc] at this
    simpa using this⟩

theorem digits_split {cs : List Char} (h : digitsLength cs ≠ 0) :
    ∃ ds rest, cs = ds ++ rest ∧ digitsLength cs = ds.length ∧ DigitsOf Char.isDigit ds := by
  obtain ⟨rest, he, -⟩ := takeWhile_split (p := Char.isDigit) cs
  exact ⟨cs.takeWhile Char.isDigit, rest, he, rfl,
    ⟨fun hn => h (by simp [digitsLength, hn]), fun c hc => List.mem_takeWhile_imp hc⟩⟩

theorem decimal_split {cs : List Char} (h : decimalLength cs ≠ 0) :
    ∃ u rest, cs = u ++ rest ∧ decimalLength cs = u.length ∧
      ∀ sign, sign = [] ∨ sign = ['-'] → IsNumber (sign ++ u) := by
  have he := decimalLength_eq cs
  have hd : digitsLength cs ≠ 0 := by
    intro hz
    rw [hz, if_pos rfl] at he
    exact h he
  obtain ⟨ds, rest, rfl, hl, hds⟩ := digits_split hd
  rw [if_neg hd, hl, List.drop_left] at he
  unfold fractionLength at he
  split at he
  · rename_i es
    by_cases hz : digitsLength es = 0
    · rw [if_pos hz] at he
      exact ⟨ds, _, rfl, he, fun sign hs => .whole hs hds⟩
    · obtain ⟨fs, rest, rfl, hf, hfs⟩ := digits_split hz
      rw [if_neg hz, hf] at he
      refine ⟨ds ++ '.' :: fs, rest, by simp, ?_, fun sign hs => .decimal hs hds hfs⟩
      simpa [Nat.add_comm] using he
  · exact ⟨ds, rest, rfl, he, fun sign hs => .whole hs hds⟩

theorem hex_split {cs : List Char} (h : hexLength cs ≠ 0) :
    ∃ u rest, cs = u ++ rest ∧ hexLength cs = u.length ∧ IsNumber u := by
  unfold hexLength at h
  split at h
  · rename_i x cs
    by_cases hx : x = 'x' ∨ x = 'X'
    · rw [if_pos hx] at h
      obtain ⟨rest, he, -⟩ := takeWhile_split (p := isHexDigit) cs
      have hl : (cs.takeWhile isHexDigit).length ≠ 0 := by
        intro hz
        simp [hz] at h
      refine ⟨'0' :: x :: cs.takeWhile isHexDigit, rest, ?_, ?_,
        .hex hx ⟨List.length_pos_iff.mp (by omega), fun c hc => List.mem_takeWhile_imp hc⟩⟩
      · rw [List.cons_append, List.cons_append, ← he]
      · rw [hexLength_cons hx, if_neg hl, List.length_cons, List.length_cons]
    · rw [if_neg hx] at h
      exact absurd rfl h
  · exact absurd rfl h

theorem number_split {cs : List Char} (h : 0 < numberLength cs) :
    ∃ u rest, cs = u ++ rest ∧ numberLength cs = u.length ∧ IsNumber u := by
  by_cases hx : hexLength cs = 0
  · by_cases hd : cs.head? = some '-'
    · obtain ⟨ds, rfl⟩ := List.head?_eq_some_iff.mp hd
      rw [numberLength_minus] at h ⊢
      split at h
      · omega
      · rename_i hz
        obtain ⟨u, rest, rfl, hl, hu⟩ := decimal_split hz
        refine ⟨'-' :: u, rest, rfl, ?_, hu ['-'] (.inr rfl)⟩
        rw [if_neg hz, hl, List.length_cons]
    · rw [numberLength_unsigned hx hd] at h ⊢
      obtain ⟨u, rest, rfl, hl, hu⟩ := decimal_split h.ne'
      exact ⟨u, rest, rfl, hl, hu [] (.inl rfl)⟩
  · rw [numberLength_of_hex hx]
    exact hex_split hx

theorem IsNumber.mem {u : List Char} (h : IsNumber u) :
    ∀ c ∈ u, isHexDigit c = true ∨ c ∈ ['-', '.', 'x', 'X'] := by
  have hsign : ∀ {sign : List Char}, sign = [] ∨ sign = ['-'] →
      ∀ c ∈ sign, c ∈ ['-', '.', 'x', 'X'] := by
    rintro sign (rfl | rfl) <;> simp
  intro c hc
  cases h with
  | whole hs hd =>
    rcases List.mem_append.mp hc with hc | hc
    · exact .inr (hsign hs c hc)
    · exact .inl (isHexDigit_of_isDigit (hd.all c hc))
  | decimal hs hd he =>
    simp only [List.mem_append, List.mem_cons] at hc
    rcases hc with hc | hc | rfl | hc
    · exact .inr (hsign hs c hc)
    · exact .inl (isHexDigit_of_isDigit (hd.all c hc))
    · exact .inr (by simp)
    · exact .inl (isHexDigit_of_isDigit (he.all c hc))
  | hex hx hd =>
    simp only [List.mem_cons] at hc
    rcases hc with rfl | rfl | hc
    · exact .inl (by decide)
    · rcases hx with rfl | rfl <;> exact .inr (by simp)
    · exact .inl (hd.all c hc)

end WidgetJsx.Expression
