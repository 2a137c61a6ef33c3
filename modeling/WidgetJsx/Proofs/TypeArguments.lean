import WidgetJsx.Proofs.Crossing
import WidgetJsx.Proofs.Margin

/-! The types that may stand in front of a list. Angle brackets are matched within them whatever the
characters between, while all other brackets are matched by the scan that crosses them. -/

namespace WidgetJsx.Expression

open Text (Cursor)

def isTypeChar (c : Char) : Bool := isNameChar c || c == '.' || c == ',' || c == '?'

/-- Angle brackets are counted in comments too. -/
structure TypeGap (gap : List Char) : Prop where
  isTrivia : Trivia gap
  no_opener : '<' ∉ gap
  no_closer : '>' ∉ gap

/-- What stands between angle brackets: names and marks, with brackets of any kind in pairs. -/
inductive Types : List Char → Prop
  | nil {gap : List Char} : TypeGap gap → Types gap
  | char {gap u : List Char} {c : Char} : TypeGap gap → isTypeChar c = true → Types u →
      Types (gap ++ c :: u)
  | angles {gap u v : List Char} : TypeGap gap → Types u → Types v →
      Types (gap ++ '<' :: (u ++ '>' :: v))
  | brackets {gap u v : List Char} {c k : Char} : TypeGap gap → closerOf? c = some k → Types u →
      Types v → Types (gap ++ c :: (u ++ k :: v))

/-- The types of a list's items with their brackets and the gap behind them, or nothing. -/
inductive TypesInFront : List Char → Prop
  | none : TypesInFront []
  | angles {u gap : List Char} : Types u → Trivia gap → TypesInFront ('<' :: (u ++ '>' :: gap))

variable {u rest : List Char} {c k : Char}

theorem angleClosing?_go_append {u : List Char} (ho : '<' ∉ u) (hc : '>' ∉ u) (depth n : Nat)
    (rest : List Char) :
    angleClosing?.go depth n (u ++ rest) = angleClosing?.go depth (n + u.length) rest := by
  induction u generalizing n with
  | nil => rfl
  | cons c u ih =>
    have h₁ : c ≠ '<' := fun he => ho (by simp [he])
    have h₂ : c ≠ '>' := fun he => hc (by simp [he])
    have hi := ih (fun hm => ho (by simp [hm])) (fun hm => hc (by simp [hm])) (n + 1)
    rw [List.cons_append, angleClosing?.go, if_neg h₁, if_neg h₂, hi, List.length_cons]
    congr 1
    omega

theorem angleClosing?_go_cons (h₁ : c ≠ '<') (h₂ : c ≠ '>') (depth n : Nat) (cs : List Char) :
    angleClosing?.go depth n (c :: cs) = angleClosing?.go depth (n + 1) cs := by
  rw [angleClosing?.go, if_neg h₁, if_neg h₂]

theorem ne_of_isTypeChar (h : isTypeChar c = true) {d : Char} (hd : isTypeChar d = false) :
    c ≠ d := by
  rintro rfl
  simp [h] at hd

theorem isBlank_eq_false_of_isTypeChar (h : isTypeChar c = true) : Text.isBlank c = false := by
  simp only [isTypeChar, Bool.or_eq_true, beq_iff_eq] at h
  rcases h with ((h | rfl) | rfl) | rfl
  · exact isBlank_eq_false_of_isNameChar h
  · decide
  · decide
  · decide

theorem ne_of_closerOf? (h : closerOf? c = some k) :
    c ≠ '<' ∧ c ≠ '>' ∧ k ≠ '<' ∧ k ≠ '>' := by
  rcases closerOf?_cases h with ⟨rfl, rfl⟩ | ⟨rfl, rfl⟩ | ⟨rfl, rfl⟩ <;> decide

/-- Within angle brackets types are counted off with no bracket left open. -/
theorem Types.go_eq (h : Types u) (depth n : Nat) (rest : List Char) :
    angleClosing?.go (depth + 1) n (u ++ rest) = angleClosing?.go (depth + 1) (n + u.length) rest := by
  -- Only angle brackets are counted, and those inside are closed again, so the depth stays.
  induction h generalizing depth n rest with
  | nil hg => exact angleClosing?_go_append hg.no_opener hg.no_closer _ _ _
  | @char gap u c hg hc _ ih =>
    have h₁ : c ≠ '<' := ne_of_isTypeChar hc (by decide)
    have h₂ : c ≠ '>' := ne_of_isTypeChar hc (by decide)
    rw [List.append_assoc, angleClosing?_go_append hg.no_opener hg.no_closer, List.cons_append,
      angleClosing?_go_cons h₁ h₂, ih, List.length_append, List.length_cons]
    congr 1
    omega
  | @angles gap u v hg _ _ ihu ihv =>
    have hclose : ∀ m cs, angleClosing?.go (depth + 1 + 1) m ('>' :: cs) =
        angleClosing?.go (depth + 1) (m + 1) cs := by
      intro m cs
      rw [angleClosing?.go, if_neg (by decide), if_pos rfl, if_neg (by omega), Nat.add_sub_cancel]
    rw [List.append_assoc, angleClosing?_go_append hg.no_opener hg.no_closer, List.cons_append,
      angleClosing?.go, if_pos rfl, List.append_assoc, ihu, List.cons_append, hclose, ihv]
    congr 1
    simp only [List.length_append, List.length_cons]
    omega
  | @brackets gap u v c k hg hk _ _ ihu ihv =>
    obtain ⟨h₁, h₂, h₃, h₄⟩ := ne_of_closerOf? hk
    rw [List.append_assoc, angleClosing?_go_append hg.no_opener hg.no_closer, List.cons_append,
      angleClosing?_go_cons h₁ h₂, List.append_assoc, ihu, List.cons_append,
      angleClosing?_go_cons h₃ h₄, ihv]
    congr 1
    simp only [List.length_append, List.length_cons]
    omega

theorem Types.angleClosing?_eq (h : Types u) (rest : List Char) :
    angleClosing? ('<' :: (u ++ '>' :: rest)) = some (u.length + 1) := by
  rw [angleClosing?, angleClosing?.go, if_pos rfl, h.go_eq, angleClosing?.go, if_neg (by decide),
    if_pos rfl, if_pos (by omega), Nat.zero_add, Nat.add_comm]

theorem TypesInFront.typedList?_eq (h : TypesInFront u) (hne : u ≠ []) (behind rest : List Char) :
    typedList? ⟨behind, u ++ '[' :: rest⟩ = some (⟨u.reverse ++ behind, '[' :: rest⟩, u.length) := by
  cases h with
  | none => exact absurd rfl hne
  | @angles u gap hu hg =>
    have ha : ('<' :: (u ++ '>' :: gap)) ++ '[' :: rest = '<' :: (u ++ '>' :: (gap ++ '[' :: rest)) := by
      simp
    have hd : ('<' :: (u ++ '>' :: (gap ++ '[' :: rest))).drop (u.length + 1 + 1) =
        gap ++ '[' :: rest := by
      rw [List.drop_succ_cons, ← List.drop_drop, List.drop_left, List.drop_one, List.tail_cons]
    have hl : triviaLength (gap ++ '[' :: rest) = gap.length :=
      hg.gapLength_eq (by decide) (solid_cons (by decide) (by decide) _)
    have hn : ('<' :: (u ++ '>' :: gap)).length = u.length + 1 + 1 + gap.length := by
      simp only [List.length_cons, List.length_append]
      omega
    have hf := Cursor.forward_append behind ('<' :: (u ++ '>' :: gap)) ('[' :: rest)
    have hc := hu.angleClosing?_eq (gap ++ '[' :: rest)
    rw [hn, ha] at hf
    rw [typedList?, ha, hn]
    simp only [hc, hd, hl, hf]
    rfl

theorem Types.head_append (h : Types u) (hr : ∀ q ∈ rest.head?, isQuote q = false) :
    ∀ q ∈ (u ++ rest).head?, isQuote q = false := by
  have hb : ∀ d, Text.isBlank d = true → isQuote d = false := fun d hd => (isBlank_breaks hd).2.2
  have hgap : ∀ {gap cs : List Char}, TypeGap gap → (∀ q ∈ cs.head?, isQuote q = false) →
      ∀ q ∈ (gap ++ cs).head?, isQuote q = false :=
    fun hg hcs => hg.isTrivia.head_append hb (by decide) hcs
  cases h with
  | nil hg => exact hgap hg hr
  | @char gap u c hg hc _ =>
    rw [List.append_assoc]
    refine hgap hg fun q hq => ?_
    obtain rfl : c = q := by simpa using hq
    apply Bool.eq_false_iff.mpr
    intro hq
    have h₁ : c ≠ '\'' := ne_of_isTypeChar hc (by decide)
    have h₂ : c ≠ '"' := ne_of_isTypeChar hc (by decide)
    simp [isQuote, h₁, h₂] at hq
  | angles hg _ _ =>
    rw [List.append_assoc]
    exact hgap hg (by simp [isQuote])
  | @brackets gap u v c k hg hk _ _ =>
    rw [List.append_assoc]
    refine hgap hg fun q hq => ?_
    obtain rfl : c = q := by simpa using hq
    rcases closerOf?_cases hk with ⟨rfl, -⟩ | ⟨rfl, -⟩ | ⟨rfl, -⟩ <;> decide

theorem crosses_typeChar (hc : isTypeChar c = true) (hr : ∀ q ∈ rest.head?, isQuote q = false)
    (behind : List Char) : Crosses behind [c] rest := by
  simp only [isTypeChar, Bool.or_eq_true, beq_iff_eq] at hc
  rcases hc with ((hc | rfl) | rfl) | rfl
  · have hword : ∀ d ∈ [c], isNameChar d = true ∨ d = '.' := by simp [hc]
    have hclear : Clear [c] rest := fun q hq hquote => by simp [hr q hq] at hquote
    exact fun awaited _ => scans_word hword hclear behind awaited
  · exact (mark_of_mem (by simp)).crosses _ _
  · exact (mark_of_mem (by simp)).crosses _ _
  · exact (mark_of_mem (by simp)).crosses _ _

theorem Types.crosses (h : Types u) (hs : Solid Text.isBlank rest)
    (hr : ∀ q ∈ rest.head?, isQuote q = false) (behind : List Char) : Crosses behind u rest := by
  induction h generalizing behind rest with
  | nil hg => exact hg.isTrivia.crosses hs behind
  | @char gap u c hg hc hu ih =>
    have hsolid : Solid Text.isBlank (c :: (u ++ rest)) :=
      solid_cons (isBlank_eq_false_of_isTypeChar hc) (ne_of_isTypeChar hc (by decide)) _
    have hchar := crosses_typeChar hc (hu.head_append hr) (gap.reverse ++ behind)
    exact (hg.isTrivia.crosses hsolid behind).append (hchar.cons (ih hs hr _))
  | @angles gap u v hg hu hv ihu ihv =>
    have hgap : Crosses behind gap ('<' :: (u ++ '>' :: v) ++ rest) :=
      hg.isTrivia.crosses (solid_cons (by decide) (by decide) _) behind
    refine hgap.append (((mark_of_mem (by simp)).crosses _ _).cons ?_)
    have hin : Crosses ('<' :: (gap.reverse ++ behind)) u ('>' :: (v ++ rest)) :=
      ihu (solid_cons (by decide) (by decide) _) (by simp [isQuote]) _
    exact hin.append (((mark_of_mem (by simp)).crosses _ _).cons (ihv hs hr _))
  | @brackets gap u v c k hg hk hu hv ihu ihv =>
    have hsolid : Solid Text.isBlank (c :: (u ++ k :: v) ++ rest) ∧
        Solid Text.isBlank (k :: (v ++ rest)) ∧ ∀ q ∈ (k :: (v ++ rest)).head?, isQuote q = false := by
      rcases closerOf?_cases hk with ⟨rfl, rfl⟩ | ⟨rfl, rfl⟩ | ⟨rfl, rfl⟩ <;>
        exact ⟨solid_cons (by decide) (by decide) _, solid_cons (by decide) (by decide) _, by simp [isQuote]⟩
    have hgap : Crosses behind gap (c :: (u ++ k :: v) ++ rest) := hg.isTrivia.crosses hsolid.1 behind
    have hin := ihu hsolid.2.1 hsolid.2.2 (c :: (gap.reverse ++ behind))
    have hboth := (hin.brackets hk).append (ihv hs hr _)
    rw [List.cons_append, List.append_assoc, List.singleton_append] at hboth
    exact hgap.append hboth

namespace TypesInFront

variable {types : List Char}

theorem crosses (h : TypesInFront types) (behind cs : List Char) :
    Crosses behind types ('[' :: cs) := by
  cases h with
  | none => exact crosses_nil _ _
  | @angles u gap hu hg =>
    have hmark : ∀ c ∈ ['<', '>'], Mark c := fun c hc => mark_of_mem (by simp at hc ⊢; simp [hc])
    have hin : Crosses ('<' :: behind) u ('>' :: (gap ++ '[' :: cs)) :=
      hu.crosses (solid_cons (by decide) (by decide) _) (by simp [isQuote]) _
    have hgap := hg.crosses (solid_cons (c := '[') (by decide) (by decide) cs)
      ('>' :: (u.reverse ++ '<' :: behind))
    exact ((hmark '<' (by simp)).crosses _ _).cons
      (hin.append (((hmark '>' (by simp)).crosses _ _).cons hgap))

theorem firm (h : TypesInFront types) (cs : List Char) : Firm (types ++ '[' :: cs) := by
  cases h with
  | none => exact ⟨'[', _, rfl, by decide, by decide⟩
  | angles _ _ => exact ⟨'<', _, rfl, by decide, by decide⟩

theorem head?_eq (h : TypesInFront types) (hne : types ≠ []) (cs : List Char) :
    (types ++ cs).head? = some '<' := by
  cases h with
  | none => exact absurd rfl hne
  | angles _ _ => rfl

theorem keywordLength_eq (h : TypesInFront types) (cs : List Char) :
    keywordLength (types ++ '[' :: cs) = 0 := by
  cases h with
  | none => exact keywordLength_cons (by decide) _
  | angles _ _ => exact keywordLength_cons (by decide) _

end TypesInFront

end WidgetJsx.Expression
