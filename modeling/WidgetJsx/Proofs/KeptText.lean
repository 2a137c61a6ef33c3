import WidgetJsx.Proofs.Alignment
import WidgetJsx.Proofs.Indentation

/-! Expressions that are kept as they are written. A swap of gaps leaves them alone, or it is one within the
trimmed text, which is then read alike once more. -/

namespace WidgetJsx

namespace Text

variable {u v : List Char}

theorem trimEnd_eq_self (h : ∀ c ∈ u.getLast?, isBlank c = false) : trimEnd u = u := by
  rw [trimEnd, dropWhile_isBlank_eq_self (by rwa [List.head?_reverse]), List.reverse_reverse]

theorem trimEnd_append_of_isBlank (h : ∀ c ∈ v, isBlank c = true) (u : List Char) :
    trimEnd (u ++ v) = trimEnd u := by
  rw [trimEnd, List.reverse_append, List.dropWhile_append_of_pos (by simpa using h), ← trimEnd]

theorem trimEnd_split (u : List Char) :
    ∃ blanks, u = trimEnd u ++ blanks ∧ ∀ c ∈ blanks, isBlank c = true := by
  refine ⟨(u.reverse.takeWhile isBlank).reverse, ?_, fun c hc => ?_⟩
  · rw [trimEnd, ← List.reverse_append, List.takeWhile_append_dropWhile, List.reverse_reverse]
  · exact List.mem_takeWhile_imp (List.mem_reverse.mp hc)

theorem getLast?_trimEnd (u : List Char) : ∀ c ∈ (trimEnd u).getLast?, isBlank c = false := by
  intro c hc
  rw [trimEnd, List.getLast?_reverse] at hc
  have := List.head?_dropWhile_not isBlank u.reverse
  rw [hc] at this
  simpa using this

theorem getLast?_append_trimEnd (h : ∀ c ∈ u.getLast?, isBlank c = false) (v : List Char) :
    ∀ c ∈ (u ++ trimEnd v).getLast?, isBlank c = false := by
  intro c hc
  rw [List.getLast?_append] at hc
  cases hv : (trimEnd v).getLast? with
  | none =>
    rw [hv] at hc
    exact h c hc
  | some d =>
    rw [hv] at hc
    exact getLast?_trimEnd v c (hv.trans hc)

/-- Trimming cuts no further than to what is not white space. -/
theorem trimEnd_append (h : ∀ c ∈ u.getLast?, isBlank c = false) (v : List Char) :
    trimEnd (u ++ v) = u ++ trimEnd v := by
  obtain ⟨blanks, hv, hb⟩ := trimEnd_split v
  rw [hv, ← List.append_assoc, trimEnd_append_of_isBlank hb,
    trimEnd_eq_self (getLast?_append_trimEnd h v), ← hv]

theorem prefix_trimEnd (u : List Char) : trimEnd u <+: u := by
  obtain ⟨blanks, hu, -⟩ := trimEnd_split u
  exact ⟨blanks, hu.symm⟩

theorem take_length_trimEnd (u v : List Char) : (u ++ v).take (trimEnd u).length = trimEnd u :=
  (List.prefix_iff_eq_take.mp ((prefix_trimEnd u).trans (List.prefix_append u v))).symm

theorem trimEnd_append_of_not_isBlank (h : ¬ ∀ c ∈ v, isBlank c = true) (u : List Char) :
    trimEnd (u ++ v) = u ++ trimEnd v := by
  obtain ⟨blanks, hv, hb⟩ := trimEnd_split v
  have hne : trimEnd v ≠ [] := by
    intro hnil
    rw [hnil, List.nil_append] at hv
    exact h (hv ▸ hb)
  rw [hv, ← List.append_assoc, trimEnd_append_of_isBlank hb, ← hv]
  refine trimEnd_eq_self fun c hc => ?_
  rw [List.getLast?_append_of_ne_nil _ hne] at hc
  exact getLast?_trimEnd v c hc

theorem infix_trimEnd (h : u <:+: v) (hu : ∀ c ∈ u.getLast?, isBlank c = false) : u <:+: trimEnd v := by
  obtain ⟨before, after, rfl⟩ := h
  cases u using List.reverseRecOn with
  | nil => exact List.nil_infix
  | append_singleton u c =>
    rw [trimEnd_append (by simpa using hu)]
    exact (List.suffix_append _ _).isInfix.trans (List.prefix_append _ _).isInfix

theorem trim_eq_trimEnd (h : ∀ c ∈ u.head?, isBlank c = false) : trim u = trimEnd u := by
  rw [trim, trimStart, dropWhile_isBlank_eq_self h]

end Text

namespace Expression

open Text

theorem filter_isAngle_trimEnd (u : List Char) : (trimEnd u).filter isAngle = u.filter isAngle := by
  obtain ⟨blanks, hu, hb⟩ := trimEnd_split u
  conv_rhs => rw [hu, List.filter_append, filter_isAngle_of_blanks hb, List.append_nil]

theorem trivia_of_blanks {blanks : List Char} (h : ∀ c ∈ blanks, isBlank c = true) : Trivia blanks := by
  induction blanks with
  | nil => exact .nil
  | cons c blanks ih => exact .fill (h c List.mem_cons_self) (ih fun d hd => h d (List.mem_cons_of_mem _ hd))

/-- What is no gap is none in front of white space either. -/
theorem Solid.append_blanks {f : Char → Bool} {c : Char} {cs blanks : List Char} (h : Solid f (c :: cs))
    (hb : ∀ d ∈ blanks, isBlank d = true) : Solid f (c :: cs ++ blanks) := by
  rw [List.cons_append, solid_cons_iff]
  rw [solid_cons_iff] at h
  refine ⟨h.1, fun hc => ?_⟩
  cases cs with
  | cons d cs => exact h.2 hc
  | nil =>
    have hne : ∀ d, isBlank d = false → blanks.head? ≠ some d := by
      intro d hd hs
      rw [hb d (List.mem_of_mem_head? hs)] at hd
      cases hd
    exact ⟨hne '/' (by decide), hne '*' (by decide)⟩

section

variable {gap back : List Char}

theorem Trails.triviaLength_eq (h : Trails gap back) : triviaLength gap = gap.length := by
  rcases h with h | ⟨-, h⟩
  · have := h.gapLength_append filler_isBlank.slash []
    rwa [List.append_nil] at this
  · exact h

/-- Without the white space at its end, a gap is one where nothing follows. -/
theorem Trails.trimEnd (h : Trails gap back) : Trails (trimEnd gap) [] := by
  refine .inr ⟨rfl, ?_⟩
  obtain ⟨blanks, hgap, hb⟩ := trimEnd_split gap
  have hall := h.triviaLength_eq
  generalize Text.trimEnd gap = u at hgap
  subst hgap
  obtain ⟨v, rest, rfl, hl, hsolid, hv⟩ := gap_split isBlank u
  cases rest with
  | nil => rwa [List.append_nil] at hl ⊢
  | cons c rest =>
    -- What is not part of the gap stays solid in front of white space.
    have hstill : Solid isBlank (c :: (rest ++ blanks)) := hsolid.append_blanks hb
    have hgap := (hv (List.cons_ne_nil c rest)).gapLength_eq filler_isBlank.slash hstill
    rw [List.append_assoc, List.cons_append, triviaLength, hgap] at hall
    simp only [List.length_append, List.length_cons] at hall
    omega

end

/-- A raw string could start here. -/
def RawHead (cs : List Char) : Prop := ∃ q, isQuote q = true ∧ ['r', q] <+: cs

/-- A dotted path, and nothing else. -/
def DottedPath (cs : List Char) : Prop := '.' ∈ cs ∧ pathLength cs = cs.length

theorem startsString_eq_of_not_rawHead {cs : List Char} (h : ¬ RawHead cs) (p q : Char) :
    startsString p cs = startsString q cs := by
  cases cs with
  | nil => rfl
  | cons c cs =>
    rw [startsString_cons, startsString_cons]
    by_cases hr : c = 'r' ∧ cs.head?.any isQuote = true
    · obtain ⟨rfl, hq⟩ := hr
      cases cs with
      | nil => cases hq
      | cons d ds => exact absurd ⟨d, hq, ds, rfl⟩ h
    · have hf : (c == 'r' && cs.head?.any isQuote) = false := by
        rw [Bool.eq_false_iff]
        exact fun ht => hr (by simpa using ht)
      rw [hf, Bool.false_and, Bool.false_and]

theorem Edge.of_startsString {s t : Cursor} {n : Nat} (h : Edge s n) (ha : s.ahead = t.ahead)
    (hs : startsString s.previous s.ahead = startsString t.previous t.ahead) : Edge t n := by
  have hnext : ∀ k, s.ahead ≠ [] → Abreast (s.forward (k + 1)) (t.forward (k + 1)) := by
    intro k hne
    obtain ⟨c, cs, hcs⟩ := List.exists_cons_of_ne_nil hne
    refine ⟨by rw [Cursor.forward_ahead, Cursor.forward_ahead, ha], fun _ => ?_⟩
    have hb : ∀ r : Cursor, r.ahead = c :: cs → (r.forward (k + 1)).previous =
        ((cs.take k).reverse ++ [c]).headD '\n' := by
      intro r hr
      simp only [Cursor.previous, Cursor.forward_behind, hr, List.take_succ_cons, List.reverse_cons]
      cases (cs.take k).reverse <;> rfl
    rw [hb s hcs, hb t (ha ▸ hcs)]
  have hitem : ∀ {c : Char} {cs : List Char}, s.ahead = c :: cs →
      Item.at s.previous c cs = Item.at t.previous c cs := by
    intro c cs hcs
    rw [← ha, hcs] at hs
    simp only [Item.at, hs]
  cases h with
  | here => exact .here _ _
  | code hcs hi _ h =>
    exact .code (ha ▸ hcs) (hitem hcs ▸ hi) rfl (h.abreast (hnext 0 (by simp [hcs])))
  | inert hcs hi h =>
    exact .inert (ha ▸ hcs) (hitem hcs ▸ hi) (h.abreast (hnext _ (by simp [hcs])))

namespace Swap

variable {core : List Char} {w : Swap} {s s' : Cursor} {n n' : Nat}

theorem Joins.rawHead_iff (h : w.Joins core s s') : RawHead s.ahead ↔ RawHead s'.ahead := by
  refine exists_congr fun q => and_congr_right fun hq => h.prefix_iff ?_
  intro c hc
  rcases List.mem_pair.mp hc with rfl | rfl
  · decide
  · rcases (Bool.or_eq_true _ _).mp hq with hq | hq <;> rw [beq_iff_eq.mp hq] <;> decide

/-- Joined texts are joined as sources of their own, unless a raw string would then start them. -/
theorem Joins.ofList (h : w.Joins core s s') (hr : ¬ RawHead s.ahead) :
    w.Joins core (.ofList s.ahead) (.ofList s'.ahead) := by
  have hs := startsString_eq_of_not_rawHead hr s.previous '\n'
  have hs' := startsString_eq_of_not_rawHead (mt h.rawHead_iff.mpr hr) s'.previous '\n'
  have hedge : ∀ {i}, Edge (.ofList s.ahead) i → Edge s i := fun he => he.of_startsString rfl hs.symm
  refine ⟨h.ahead, h.ahead', fun _ => rfl, h.short, h.short', h.fair.imp id fun hf => ?_⟩
  refine ⟨hf.edge.of_startsString rfl hs, hf.edge'.of_startsString rfl hs', hf.trails, hf.trails', hf.filled,
    hf.core_infix, hf.core_last, hf.last,
    fun i hi ha => ?_, fun i q hi => hf.no_raw i q (hedge hi)⟩
  cases hf.angles i (hedge hi) ha with
  | closed hk he => exact .closed hk (he.of_startsString rfl hs)
  | unclosed hk hangles => exact .unclosed hk hangles
  | untyped ht ht' =>
    refine .untyped (typedList?_congr ?_ ht) (typedList?_congr ?_ ht')
    · rw [Cursor.forward_ahead, Cursor.forward_ahead]
      rfl
    · rw [Cursor.forward_ahead, Cursor.forward_ahead]
      rfl

end Swap

/-- A text that is kept from the one source, and what is kept of it from the other. The gap that was there
shows in the first. -/
structure Parted (core t t' : List Char) : Prop where
  shows : core <:+: t
  trimmed : Trimmed t
  trimmed' : Trimmed t'
  not_path : ¬ DottedPath t
  not_path' : ¬ DottedPath t'
  reads : (∃ w : Swap, w.Joins core (.ofList t) (.ofList t')) ∨ RawHead t ∧ RawHead t'

inductive Kept (core : List Char) : String → String → Prop
  | same (t : String) : Kept core t t
  | parted {t t' : String} : Parted core t.toList t'.toList → Kept core t t'

namespace Swap

variable {core : List Char} {w : Swap} {s s' : Cursor} {n n' : Nat}

/-- A text that begins in front of the gap and is cut off behind it is trimmed at its end alone. -/
theorem Fair.trim_take (hf : w.Fair core s s') (hne : w.front ≠ [])
    (hfront : ∀ c ∈ w.front.head?, isBlank c = false) {t : Cursor} {gap : List Char}
    (ha : t.ahead = w.front ++ (gap ++ w.back)) (m : Nat) :
    trim (t.ahead.take (w.front.length + gap.length + m)) = w.front ++ trimEnd (gap ++ w.back.take m) := by
  rw [← trimEnd_append hf.last, ha, ← List.append_assoc, ← List.length_append, List.take_length_add_append,
    List.append_assoc]
  refine trim_eq_trimEnd fun d hd => hfront d ?_
  rwa [List.head?_append_of_ne_nil _ hne] at hd

/-- Behind the gap two texts are cut off and trimmed as one is, and the gap with them if nothing but white
space follows it. -/
theorem Fair.exists_trimmed (h : w.Joins core s s') (hf : w.Fair core s s') (hne : w.front ≠ [])
    (hs : ∀ c ∈ s.next?, isBlank c = false) (m : Nat) :
    ∃ (v : Swap) (k k' : Nat), v.Joins core (s.within k) (s'.within k') ∧
      trim (s.ahead.take (w.front.length + w.gap.length + m)) = (s.within k).ahead ∧
      trim (s'.ahead.take (w.front.length + w.gap'.length + m)) = (s'.within k').ahead ∧
      core <:+: (s.within k).ahead := by
  have hhead : s.next? = w.front.head? := by
    rw [Cursor.next?, h.ahead, List.head?_append_of_ne_nil _ hne]
  rw [hhead] at hs
  -- Trimming reaches into the gap just when only white space follows it.
  by_cases hb : ∀ c ∈ w.back.take m, isBlank c = true
  · have hcut : ∀ (t : Cursor) (gap : List Char), t.ahead = w.front ++ (gap ++ w.back) →
        (t.within (w.front.length + (trimEnd gap).length)).ahead = w.front ++ trimEnd gap := by
      intro t gap ha
      rw [Cursor.within_ahead, ha, List.take_length_add_append, take_length_trimEnd]
    have hahead := hcut s w.gap h.ahead
    have hahead' := hcut s' w.gap' h.ahead'
    have hcore := infix_trimEnd hf.core_infix hf.core_last
    have hcutfair := hf.cut (Nat.le_add_right _ (trimEnd w.gap).length)
      (Nat.le_add_right _ (trimEnd w.gap').length) hf.trails.trimEnd hf.trails'.trimEnd (.inl rfl) hcore
      (filter_isAngle_trimEnd _) (filter_isAngle_trimEnd _)
    refine ⟨_, _, _, ⟨by rw [hahead, List.append_nil], by rw [hahead', List.append_nil],
      fun _ => h.previous (.inl (by simp [h.ahead, hne])),
      h.short.of_infix (List.take_prefix _ _).isInfix, h.short'.of_infix (List.take_prefix _ _).isInfix,
      .inr hcutfair⟩, ?_, ?_, ?_⟩
    · rw [hf.trim_take hne hs h.ahead, trimEnd_append_of_isBlank hb, hahead]
    · rw [hf.trim_take hne hs h.ahead', trimEnd_append_of_isBlank hb, hahead']
    · rw [hahead]
      exact hcore.trans (List.suffix_append _ _).isInfix
  · obtain ⟨v, hv, -⟩ := h.within (.back (trimEnd (w.back.take m)).length)
    have hcut : ∀ (t : Cursor) (gap : List Char), t.ahead = w.front ++ (gap ++ w.back) →
        trim (t.ahead.take (w.front.length + gap.length + m)) =
          (t.within (w.front.length + gap.length + (trimEnd (w.back.take m)).length)).ahead := by
      intro t gap ha
      rw [hf.trim_take hne hs ha, trimEnd_append_of_not_isBlank hb, Cursor.within_ahead, ha, ← List.append_assoc,
        ← List.append_assoc, ← List.length_append, List.take_length_add_append]
      congr 1
      exact List.prefix_iff_eq_take.mp ((prefix_trimEnd _).trans (List.take_prefix _ _))
    refine ⟨v, _, _, hv, hcut s w.gap h.ahead, hcut s' w.gap' h.ahead', ?_⟩
    rw [Cursor.within_ahead, h.ahead, ← List.append_assoc, ← List.length_append,
      List.take_length_add_append]
    exact hf.core_infix.trans ((List.suffix_append _ _).isInfix.trans (List.prefix_append _ _).isInfix)

/-- What is kept of an expression from the one text is kept of it from the other. -/
theorem Joins.kept (h : w.Joins core s s') (hr : w.Ready) (hs : ∀ c ∈ s.next?, isBlank c = false)
    (hm : w.Meets s n n') (hp : ¬ DottedPath (trim (s.ahead.take n)))
    (hp' : ¬ DottedPath (trim (s'.ahead.take n'))) :
    Kept core (String.ofList (trim (s.ahead.take n))) (String.ofList (trim (s'.ahead.take n'))) := by
  have hsame : s.ahead.take n = s'.ahead.take n' →
      Kept core (String.ofList (trim (s.ahead.take n))) (String.ofList (trim (s'.ahead.take n'))) :=
    fun he => he ▸ .same _
  rcases h.fair with hi | hf
  · rw [hi.eq_of_meets hm, (h.abreast hi).ahead]
    exact .same _
  cases hm with
  | front hn he =>
    refine hsame ?_
    rw [h.ahead, h.ahead', List.take_append_of_le_length hn, List.take_append_of_le_length hn]
  | back m =>
    rcases hr with hne | hi
    · obtain ⟨v, k, k', hv, hk, hk', hcore⟩ := hf.exists_trimmed h hne hs m
      refine .parted ?_
      rw [String.toList_ofList, String.toList_ofList]
      refine ⟨hk ▸ hcore, trimmed_trim _, trimmed_trim _, hp, hp', ?_⟩
      rw [hk, hk']
      by_cases hraw : RawHead (s.within k).ahead
      · exact .inr ⟨hraw, hv.rawHead_iff.mp hraw⟩
      · exact .inl ⟨v, hv.ofList hraw⟩
    · refine hsame ?_
      rw [(h.abreast hi).ahead, hi.2.1, hi.2.2]

end Swap

end Expression

end WidgetJsx
