import WidgetJsx.Expression.Gap

/-! The grammar of gaps beside the function that measures them. A gap is measured in full whatever
follows it, and measuring one looks no further than the character behind it. -/

namespace WidgetJsx.Expression

/-- White space, as `filler` says, and comments, each of them closed. -/
inductive Gap (filler : Char → Bool) : List Char → Prop
  | nil : Gap filler []
  | fill {c : Char} {cs : List Char} : filler c = true → Gap filler cs → Gap filler (c :: cs)
  | line {body cs : List Char} : '\n' ∉ body → Gap filler cs →
      Gap filler ('/' :: '/' :: (body ++ '\n' :: cs))
  | block {body cs : List Char} : ¬ ['*', '/'] <:+: body → Gap filler cs →
      Gap filler ('/' :: '*' :: (body ++ '*' :: '/' :: cs))

/-- A gap at the end of a text, whose last comment need not be closed. -/
inductive LastGap (filler : Char → Bool) : List Char → Prop
  | closed {cs : List Char} : Gap filler cs → LastGap filler cs
  | line {cs body : List Char} : Gap filler cs → '\n' ∉ body →
      LastGap filler (cs ++ '/' :: '/' :: body)
  | block {cs body : List Char} : Gap filler cs → ¬ ['*', '/'] <:+: body →
      LastGap filler (cs ++ '/' :: '*' :: body)

abbrev Trivia : List Char → Prop := Gap Text.isBlank

abbrev Separators : List Char → Prop := Gap fun c => Text.isBlank c || c == ','

abbrev Terminators : List Char → Prop := LastGap fun c => Text.isBlank c || c == ',' || c == ';'

variable {f : Char → Bool}

theorem Gap.append {u v : List Char} (hu : Gap f u) (hv : Gap f v) :
    Gap f (u ++ v) := by
  induction hu with
  | nil => exact hv
  | fill h _ ih => exact .fill h ih
  | line h _ ih => simpa using Gap.line h ih
  | block h _ ih => simpa using Gap.block h ih

theorem Gap.mono {g : Char → Bool} (hf : ∀ c, f c = true → g c = true)
    {u : List Char} (h : Gap f u) : Gap g u := by
  induction h with
  | nil => exact .nil
  | fill h _ ih => exact .fill (hf _ h) ih
  | line h _ ih => exact .line h ih
  | block h _ ih => exact .block h ih

theorem Gap.head_append {P : Char → Prop} (hf : ∀ c, f c = true → P c) (hs : P '/')
    {u rest : List Char} (h : Gap f u) (hr : ∀ c ∈ rest.head?, P c) :
    ∀ c ∈ (u ++ rest).head?, P c := by
  cases h with
  | nil => exact hr
  | fill h _ => simpa using hf _ h
  | line _ _ | block _ _ => simpa using hs

theorem Trivia.separators {u : List Char} (h : Trivia u) : Separators u :=
  h.mono fun _ hc => by simp [hc]

theorem Separators.trivia_or {u : List Char} (h : Separators u) :
    Trivia u ∨ ∃ front back, u = front ++ ',' :: back ∧ Trivia front := by
  induction h with
  | nil => exact .inl .nil
  | @fill c cs hc _ ih =>
    rcases (Bool.or_eq_true _ _).mp hc with hc | hc
    · rcases ih with ht | ⟨front, back, rfl, ht⟩
      · exact .inl (.fill hc ht)
      · exact .inr ⟨c :: front, back, rfl, .fill hc ht⟩
    · obtain rfl : c = ',' := by simpa using hc
      exact .inr ⟨[], cs, rfl, .nil⟩
  | @line body cs hb _ ih =>
    rcases ih with ht | ⟨front, back, rfl, ht⟩
    · exact .inl (.line hb ht)
    · exact .inr ⟨'/' :: '/' :: (body ++ '\n' :: front), back, by simp, .line hb ht⟩
  | @block body cs hb _ ih =>
    rcases ih with ht | ⟨front, back, rfl, ht⟩
    · exact .inl (.block hb ht)
    · exact .inr ⟨'/' :: '*' :: (body ++ '*' :: '/' :: front), back, by simp, .block hb ht⟩

@[simp] theorem gapLength_go_nil (part : GapPart) (n : Nat) : gapLength.go f part n [] = n := by
  cases part <;> rfl

@[simp] theorem gapLength_go_open_line (n : Nat) (cs : List Char) :
    gapLength.go f .between n ('/' :: '/' :: cs) = gapLength.go f .line (n + 2) cs := rfl

@[simp] theorem gapLength_go_open_block (n : Nat) (cs : List Char) :
    gapLength.go f .between n ('/' :: '*' :: cs) = gapLength.go f .block (n + 2) cs := rfl

@[simp] theorem gapLength_go_line (n : Nat) (c : Char) (cs : List Char) :
    gapLength.go f .line n (c :: cs) =
      gapLength.go f (if c = '\n' then .between else .line) (n + 1) cs := rfl

@[simp] theorem gapLength_go_close_block (n : Nat) (cs : List Char) :
    gapLength.go f .block n ('*' :: '/' :: cs) = gapLength.go f .between (n + 2) cs := rfl

theorem gapLength_go_between {c : Char} {cs : List Char} (h₁ : ∀ ds, c = '/' → cs ≠ '/' :: ds)
    (h₂ : ∀ ds, c = '/' → cs ≠ '*' :: ds) (n : Nat) :
    gapLength.go f .between n (c :: cs) =
      if f c then gapLength.go f .between (n + 1) cs else n := by
  rw [gapLength.go.eq_def]
  split <;> simp_all

theorem gapLength_go_block {c : Char} {cs : List Char} (h : ∀ ds, c = '*' → cs ≠ '/' :: ds)
    (n : Nat) :
    gapLength.go f .block n (c :: cs) = gapLength.go f .block (n + 1) cs := by
  rw [gapLength.go.eq_def]
  split <;> simp_all

theorem gapLength_go_add (part : GapPart) (m n : Nat) (cs : List Char) :
    gapLength.go f part (m + n) cs = m + gapLength.go f part n cs := by
  fun_induction gapLength.go f part n cs <;>
    simp_all [gapLength_go_between, gapLength_go_block, Nat.add_assoc]

theorem le_gapLength_go (part : GapPart) (n : Nat) (cs : List Char) :
    n ≤ gapLength.go f part n cs := by
  rw [← Nat.add_zero n, gapLength_go_add]
  exact Nat.le_add_right _ _

theorem gapLength_go_le (part : GapPart) (n : Nat) (cs : List Char) :
    gapLength.go f part n cs ≤ n + cs.length := by
  fun_induction gapLength.go f part n cs <;> simp_all <;> omega

theorem gapLength_le (cs : List Char) : gapLength f cs ≤ cs.length := by
  simpa [gapLength] using gapLength_go_le (f := f) .between 0 cs

theorem gapLength_line {body : List Char} (h : '\n' ∉ body) (cs : List Char) :
    gapLength f ('/' :: '/' :: (body ++ '\n' :: cs)) =
      body.length + 3 + gapLength f cs := by
  have hb : ∀ n, gapLength.go f .line n (body ++ '\n' :: cs) =
      n + body.length + 1 + gapLength f cs := by
    induction body with
    | nil =>
      intro n
      simpa [gapLength] using gapLength_go_add (f := f) .between (n + 1) 0 cs
    | cons c body ih =>
      intro n
      have hc : c ≠ '\n' := fun he => h (by simp [he])
      simp only [List.cons_append, gapLength_go_line, if_neg hc, ih (fun hm => h (by simp [hm])),
        List.length_cons]
      omega
  rw [gapLength, gapLength_go_open_line, hb]
  omega

theorem gapLength_block {body : List Char} (h : ¬ ['*', '/'] <:+: body) (cs : List Char) :
    gapLength f ('/' :: '*' :: (body ++ '*' :: '/' :: cs)) =
      body.length + 4 + gapLength f cs := by
  have hb : ∀ n, gapLength.go f .block n (body ++ '*' :: '/' :: cs) =
      n + body.length + 2 + gapLength f cs := by
    induction body with
    | nil =>
      intro n
      simpa [gapLength] using gapLength_go_add (f := f) .between (n + 2) 0 cs
    | cons c body ih =>
      intro n
      have hi := ih (fun hm => h (List.infix_cons hm)) (n + 1)
      have hn : ∀ ds, c = '*' → body ++ '*' :: '/' :: cs ≠ '/' :: ds := by
        rintro ds rfl hd
        cases body with
        | nil => simp at hd
        | cons d body =>
          obtain ⟨rfl, -⟩ := List.cons.inj hd
          exact h ⟨[], body, rfl⟩
      rw [List.cons_append, gapLength_go_block hn, hi, List.length_cons]
      omega
  rw [gapLength, gapLength_go_open_block, hb]
  omega

theorem Gap.gapLength_append (hf : f '/' = false) {u : List Char} (h : Gap f u)
    (rest : List Char) : gapLength f (u ++ rest) = u.length + gapLength f rest := by
  induction h with
  | nil => simp
  | @fill c cs hc _ ih =>
    have hs : c ≠ '/' := by rintro rfl; simp [hf] at hc
    have hg : gapLength f (c :: (cs ++ rest)) = 1 + gapLength f (cs ++ rest) := by
      have := gapLength_go_add (f := f) .between 1 0 (cs ++ rest)
      simpa [gapLength, gapLength_go_between, hs, hc] using this
    rw [List.cons_append, hg, ih, List.length_cons]
    omega
  | line hb _ ih =>
    simp only [List.cons_append, List.append_assoc, gapLength_line hb, ih, List.length_cons,
      List.length_append]
    omega
  | block hb _ ih =>
    simp only [List.cons_append, List.append_assoc, gapLength_block hb, ih, List.length_cons,
      List.length_append]
    omega

/-- Nothing of a gap stands at the head of a text. -/
def Solid (f : Char → Bool) (cs : List Char) : Prop := gapLength f cs = 0

theorem solid_nil : Solid f [] := rfl

theorem solid_cons_iff {c : Char} {cs : List Char} : Solid f (c :: cs) ↔
    f c = false ∧ (c = '/' → cs.head? ≠ some '/' ∧ cs.head? ≠ some '*') := by
  by_cases h₁ : c = '/' ∧ cs.head? = some '/'
  · obtain ⟨rfl, h⟩ := h₁
    obtain ⟨ds, rfl⟩ := List.head?_eq_some_iff.mp h
    have := le_gapLength_go (f := f) .line 2 ds
    simp only [Solid, gapLength, gapLength_go_open_line, Nat.zero_add, List.head?_cons]
    exact iff_of_false (by omega) (by simp)
  by_cases h₂ : c = '/' ∧ cs.head? = some '*'
  · obtain ⟨rfl, h⟩ := h₂
    obtain ⟨ds, rfl⟩ := List.head?_eq_some_iff.mp h
    have := le_gapLength_go (f := f) .block 2 ds
    simp only [Solid, gapLength, gapLength_go_open_block, Nat.zero_add, List.head?_cons]
    exact iff_of_false (by omega) (by simp)
  have hg := @gapLength_go_between f c cs
    (fun ds hc hd => h₁ ⟨hc, by simp [hd]⟩) (fun ds hc hd => h₂ ⟨hc, by simp [hd]⟩) 0
  have := le_gapLength_go (f := f) .between 1 cs
  rw [Solid, gapLength, hg, Nat.zero_add]
  by_cases hc : f c = true
  · rw [if_pos hc]
    exact iff_of_false (by omega) (by simp [hc])
  · rw [if_neg hc]
    exact iff_of_true rfl ⟨by simpa using hc, fun he => ⟨fun h => h₁ ⟨he, h⟩, fun h => h₂ ⟨he, h⟩⟩⟩

theorem solid_cons {c : Char} (hc : f c = false) (hs : c ≠ '/') (cs : List Char) :
    Solid f (c :: cs) :=
  solid_cons_iff.mpr ⟨hc, fun he => absurd he hs⟩

theorem Gap.gapLength_eq (hf : f '/' = false) {u rest : List Char} (h : Gap f u)
    (hr : Solid f rest) : gapLength f (u ++ rest) = u.length := by
  rw [h.gapLength_append hf, hr, Nat.add_zero]

theorem gapLength_go_line_of_not_mem {body : List Char} (h : '\n' ∉ body) (n : Nat) :
    gapLength.go f .line n body = n + body.length := by
  induction body generalizing n with
  | nil => rfl
  | cons c body ih =>
    have hc : c ≠ '\n' := fun he => h (by simp [he])
    simp only [gapLength_go_line, if_neg hc, ih (fun hm => h (by simp [hm])), List.length_cons]
    omega

theorem gapLength_go_block_of_not_infix {body : List Char} (h : ¬ ['*', '/'] <:+: body) (n : Nat) :
    gapLength.go f .block n body = n + body.length := by
  induction body generalizing n with
  | nil => rfl
  | cons c body ih =>
    have hn : ∀ ds, c = '*' → body ≠ '/' :: ds := by
      rintro ds rfl rfl
      exact h ⟨[], ds, rfl⟩
    rw [gapLength_go_block hn, ih fun hm => h (List.infix_cons hm), List.length_cons]
    omega

theorem LastGap.gapLength_eq (hf : f '/' = false) {u : List Char} (h : LastGap f u) :
    gapLength f u = u.length := by
  cases h with
  | closed h => simpa using h.gapLength_eq hf solid_nil
  | line h hb =>
    rw [h.gapLength_append hf, List.length_append]
    simp [gapLength, gapLength_go_line_of_not_mem hb]
    omega
  | block h hb =>
    rw [h.gapLength_append hf, List.length_append]
    simp [gapLength, gapLength_go_block_of_not_infix hb]
    omega

theorem ne_cons_of_take {c : Char} {cs : List Char} (h : ∀ ds, cs ≠ c :: ds) (m : Nat)
    (ds : List Char) : cs.take m ≠ c :: ds := by
  intro he
  have := List.take_append_drop m cs
  rw [he, List.cons_append] at this
  exact h _ this.symm

theorem gapLength_go_take {part : GapPart} {n m : Nat} {cs : List Char}
    (h : gapLength.go f part n cs ≤ n + m) :
    gapLength.go f part n (cs.take m) = gapLength.go f part n cs := by
  fun_induction gapLength.go f part n cs generalizing m with
  | case1 n cs ih | case2 n cs ih | case6 n cs ih =>
    have := le_gapLength_go (f := f) .line (n + 2) cs
    have := le_gapLength_go (f := f) .block (n + 2) cs
    have := le_gapLength_go (f := f) .between (n + 2) cs
    obtain ⟨m, rfl⟩ : ∃ k, m = k + 2 := ⟨m - 2, by omega⟩
    simpa using ih (by omega)
  | case3 n c cs h₁ h₂ hc ih =>
    have := le_gapLength_go (f := f) .between (n + 1) cs
    obtain ⟨m, rfl⟩ : ∃ k, m = k + 1 := ⟨m - 1, by omega⟩
    rw [List.take_succ_cons, gapLength_go_between (fun _ he => ne_cons_of_take (h₁ · he) m _)
      (fun _ he => ne_cons_of_take (h₂ · he) m _), if_pos hc, ih (by omega)]
  | case4 n c cs h₁ h₂ hc =>
    cases m with
    | zero => simp
    | succ m =>
      rw [List.take_succ_cons, gapLength_go_between (fun _ he => ne_cons_of_take (h₁ · he) m _)
        (fun _ he => ne_cons_of_take (h₂ · he) m _), if_neg hc]
  | case5 n c cs ih =>
    obtain ⟨m, rfl⟩ : ∃ k, m = k + 1 := by
      have := le_gapLength_go (f := f) (if c = '\n' then .between else .line) (n + 1) cs
      exact ⟨m - 1, by omega⟩
    simpa using ih (by omega)
  | case7 n c cs hc ih =>
    have := le_gapLength_go (f := f) .block (n + 1) cs
    obtain ⟨m, rfl⟩ : ∃ k, m = k + 1 := ⟨m - 1, by omega⟩
    rw [List.take_succ_cons, gapLength_go_block (fun _ he => ne_cons_of_take (hc · he) m _),
      ih (by omega)]
  | case8 part n => simp

theorem gapLength_take {m : Nat} {cs : List Char} (h : gapLength f cs ≤ m) :
    gapLength f (cs.take m) = gapLength f cs :=
  gapLength_go_take (by rw [Nat.zero_add]; exact h)

theorem gapLength_of_append {u rest : List Char} (h : gapLength f (u ++ rest) ≤ u.length) :
    gapLength f u = gapLength f (u ++ rest) := by
  have htake := gapLength_take h
  rwa [List.take_left] at htake

/-- What is left of a gap for a reader that stands in the given part of one. -/
def GapPart.Closes (f : Char → Bool) : GapPart → List Char → Prop
  | .between, u => Gap f u
  | .line, u => ∃ body cs, u = body ++ '\n' :: cs ∧ '\n' ∉ body ∧ Gap f cs
  | .block, u => ∃ body cs, u = body ++ '*' :: '/' :: cs ∧ ¬ ['*', '/'] <:+: body ∧ Gap f cs

theorem not_infix_cons {c : Char} {body : List Char} (h : ¬ ['*', '/'] <:+: body)
    (hc : ∀ ds, c = '*' → body ≠ '/' :: ds) : ¬ ['*', '/'] <:+: c :: body := by
  rw [List.infix_cons_iff]
  rintro (⟨ds, hd⟩ | hi)
  · obtain ⟨rfl, he⟩ := List.cons.inj hd
    exact hc ds rfl he.symm
  · exact h hi

/-- A reader stops where nothing of a gap follows, and unless that is the end of the text, it has
passed a whole gap. -/
theorem gapLength_go_split (part : GapPart) (n : Nat) (cs : List Char) :
    ∃ u rest, cs = u ++ rest ∧ gapLength.go f part n cs = n + u.length ∧
      Solid f rest ∧ (rest ≠ [] → part.Closes f u) := by
  -- By the cases of the reader: what it passes from here on closes the part that it stands in.
  fun_induction gapLength.go f part n cs with
  | case1 n cs ih =>
    obtain ⟨u, rest, rfl, hn, hs, hu⟩ := ih
    refine ⟨'/' :: '/' :: u, rest, rfl, by simp [hn]; omega, hs, fun hr => ?_⟩
    obtain ⟨body, t, rfl, hb, ht⟩ := hu hr
    exact .line hb ht
  | case2 n cs ih =>
    obtain ⟨u, rest, rfl, hn, hs, hu⟩ := ih
    refine ⟨'/' :: '*' :: u, rest, rfl, by simp [hn]; omega, hs, fun hr => ?_⟩
    obtain ⟨body, t, rfl, hb, ht⟩ := hu hr
    exact .block hb ht
  | case3 n c cs h₁ h₂ hc ih =>
    obtain ⟨u, rest, rfl, hn, hs, hu⟩ := ih
    exact ⟨c :: u, rest, rfl, by simp [hn]; omega, hs, fun hr => .fill hc (hu hr)⟩
  | case4 n c cs h₁ h₂ hc =>
    refine ⟨[], c :: cs, rfl, rfl, ?_, fun _ => .nil⟩
    rw [Solid, gapLength, gapLength_go_between (fun _ he => h₁ _ he) (fun _ he => h₂ _ he),
      if_neg hc]
  | case5 n c cs ih =>
    obtain ⟨u, rest, rfl, hn, hs, hu⟩ := ih
    refine ⟨c :: u, rest, rfl, by simp [hn]; omega, hs, fun hr => ?_⟩
    by_cases hc : c = '\n'
    · subst hc
      exact ⟨[], u, rfl, List.not_mem_nil, hu hr⟩
    · obtain ⟨body, t, rfl, hb, ht⟩ := by simpa [hc] using hu hr
      exact ⟨c :: body, t, rfl, by simp [Ne.symm hc, hb], ht⟩
  | case6 n cs ih =>
    obtain ⟨u, rest, rfl, hn, hs, hu⟩ := ih
    exact ⟨'*' :: '/' :: u, rest, rfl, by simp [hn]; omega, hs,
      fun hr => ⟨[], u, rfl, by simp, hu hr⟩⟩
  | case7 n c cs hc ih =>
    obtain ⟨u, rest, rfl, hn, hs, hu⟩ := ih
    refine ⟨c :: u, rest, rfl, by simp [hn]; omega, hs, fun hr => ?_⟩
    obtain ⟨body, t, rfl, hb, ht⟩ := hu hr
    refine ⟨c :: body, t, rfl, not_infix_cons hb fun ds he hd => ?_, ht⟩
    exact hc (ds ++ '*' :: '/' :: t ++ rest) he (by simp [hd])
  | case8 part n => exact ⟨[], [], rfl, by cases part <;> rfl, solid_nil, fun h => absurd rfl h⟩

theorem gap_split (f : Char → Bool) (cs : List Char) :
    ∃ u rest, cs = u ++ rest ∧ gapLength f cs = u.length ∧ Solid f rest ∧
      (rest ≠ [] → Gap f u) := by
  obtain ⟨u, rest, hc, hn, hs, hu⟩ := gapLength_go_split (f := f) .between 0 cs
  exact ⟨u, rest, hc, by rw [gapLength, hn, Nat.zero_add], hs, hu⟩

theorem solid_drop (cs : List Char) : Solid f (cs.drop (gapLength f cs)) := by
  obtain ⟨u, rest, rfl, hu, hs, -⟩ := gap_split f cs
  rwa [hu, List.drop_left]

theorem gap_take {cs : List Char} (h : gapLength f cs < cs.length) :
    Gap f (cs.take (gapLength f cs)) := by
  obtain ⟨u, rest, rfl, hu, -, hg⟩ := gap_split f cs
  rw [hu, List.take_left]
  apply hg
  intro hr
  rw [hu, hr] at h
  simp at h

theorem gapLength_go_mono {g : Char → Bool} (h : ∀ c, f c = true → g c = true) (part : GapPart)
    (n : Nat) (cs : List Char) : gapLength.go f part n cs ≤ gapLength.go g part n cs := by
  fun_induction gapLength.go f part n cs with
  | case1 n cs ih | case2 n cs ih | case5 n c cs ih | case6 n cs ih =>
    simpa using ih
  | case3 n c cs h₁ h₂ hc ih =>
    rwa [gapLength_go_between (fun _ he => h₁ _ he) (fun _ he => h₂ _ he), if_pos (h c hc)]
  | case4 n c cs h₁ h₂ hc => exact le_gapLength_go _ _ _
  | case7 n c cs hc ih =>
    rwa [gapLength_go_block fun _ he => hc _ he]
  | case8 part n => exact le_gapLength_go _ _ _

theorem gapLength_eq_add {g : Char → Bool} (h : ∀ c, f c = true → g c = true) (hg : g '/' = false)
    (cs : List Char) : gapLength g cs = gapLength f cs + gapLength g (cs.drop (gapLength f cs)) := by
  obtain ⟨u, rest, he, hn, -, hu⟩ := gap_split f cs
  cases rest with
  | nil =>
    have := gapLength_go_mono h .between 0 cs
    have hle := gapLength_le (f := g) cs
    rw [← gapLength, ← gapLength, hn] at this
    simp only [he, List.append_nil] at this hle hn ⊢
    rw [hn, List.drop_length, show gapLength g [] = 0 from rfl]
    omega
  | cons c rest =>
    have := ((hu (List.cons_ne_nil c rest)).mono h).gapLength_append hg (c :: rest)
    rw [hn, he, List.drop_left, this]

theorem Solid.congr {u v w : List Char} {c : Char} (hc : c ≠ '/')
    (h : Solid f (u ++ c :: v)) : Solid f (u ++ c :: w) := by
  cases u with
  | nil =>
    rw [List.nil_append, solid_cons_iff] at h ⊢
    exact ⟨h.1, fun he => absurd he hc⟩
  | cons d u =>
    rw [List.cons_append, solid_cons_iff] at h ⊢
    cases u with
    | nil => exact h
    | cons e u => exact h

theorem gapLength_congr (hf : f '/' = false) {u v w : List Char} {c : Char} (hc : c ≠ '/')
    (h : gapLength f (u ++ c :: v) ≤ u.length) :
    gapLength f (u ++ c :: w) = gapLength f (u ++ c :: v) := by
  have hg := @gap_take f (u ++ c :: v) (by simp; omega)
  have hs := solid_drop (f := f) (u ++ c :: v)
  rw [List.take_append_of_le_length h] at hg
  rw [List.drop_append_of_le_length h] at hs
  have he := hg.gapLength_eq hf (hs.congr hc (w := w))
  rw [← List.append_assoc, List.take_append_drop] at he
  rw [he, List.length_take, Nat.min_eq_left h]

end WidgetJsx.Expression
