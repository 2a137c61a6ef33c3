import WidgetJsx.Proofs.Crossing
import WidgetJsx.Proofs.Margin

/-! Text that nobody reads, but that is passed as a whole: its string literals and comments are closed in
it, and its brackets match. Scans with a stack of brackets and scans with a counter of them pass it alike. -/

namespace WidgetJsx.Expression

open Text (Cursor)

/-- Behind the character `previous` stands a text in which all that is opened is closed. Commas outside
its brackets are there only if `commas` holds. -/
inductive Sealed : Bool → Char → List Char → Prop
  | nil (commas : Bool) (previous : Char) : Sealed commas previous []
  | code {commas : Bool} {previous c : Char} {u : List Char} : startsString previous (c :: u) = false →
      ¬ startsComment c u → closerOf? c = none → isCloser c = false → (c = ',' → commas = true) →
      Sealed commas c u → Sealed commas previous (c :: u)
  | string {commas : Bool} {previous : Char} {d : Delimiter} {content text u : List Char} :
      isQuote d.quote = true → (d.raw = true → isNameChar previous = false) →
      d.Encodes content text → d.Apart content u → Sealed commas d.quote u →
      Sealed commas previous (d.opener ++ (content ++ (d.closer ++ u)))
  | line {commas : Bool} {previous : Char} {body u : List Char} : '\n' ∉ body → Sealed commas '\n' u →
      Sealed commas previous ('/' :: '/' :: (body ++ '\n' :: u))
  | block {commas : Bool} {previous : Char} {body u : List Char} : ¬ ['*', '/'] <:+: body →
      Sealed commas '/' u → Sealed commas previous ('/' :: '*' :: (body ++ '*' :: '/' :: u))
  | brackets {commas : Bool} {previous c k : Char} {v u : List Char} : closerOf? c = some k →
      Sealed true c v → Sealed commas k u → Sealed commas previous (c :: (v ++ k :: u))

/-- A comma, a closing bracket or the end. -/
def Divided (rest : List Char) : Prop := ∀ c ∈ rest.head?, c = ',' ∨ isCloser c = true

/-- A raw string may start behind the one text just when it may start behind the character. -/
def Preceded (previous : Char) (behind : List Char) : Prop :=
  isNameChar (behind.headD '\n') = isNameChar previous

variable {commas : Bool} {previous c k : Char} {u v behind rest : List Char}

theorem divided_closer (hk : closerOf? c = some k) (rest : List Char) : Divided (k :: rest) := by
  intro d hd
  obtain rfl : k = d := by simpa using hd
  exact .inr (isCloser_of_closerOf? hk).1

theorem Divided.not_mark (h : Divided rest) {d : Char} (hd : d ∈ rest.head?) :
    isQuote d = false ∧ d ≠ '/' ∧ d ≠ '*' := by
  rcases h d hd with rfl | hc
  · decide
  · rcases isCloser_cases hc with rfl | rfl | rfl <;> decide

theorem Divided.solid_append (h : Divided rest) (hu : Solid Text.isBlank u) :
    Solid Text.isBlank (u ++ rest) := by
  cases u with
  | nil => exact solid_of_separator h
  | cons c u =>
    obtain ⟨hb, hs⟩ := solid_cons_iff.mp hu
    refine solid_cons_iff.mpr ⟨hb, fun he => ?_⟩
    cases u with
    | nil =>
      exact ⟨fun hd => (h.not_mark hd).2.1 rfl, fun hd => (h.not_mark hd).2.2 rfl⟩
    | cons d u => exact hs he

theorem Divided.item (h : Divided rest) (hs : startsString previous (c :: u) = false)
    (hc : ¬ startsComment c u) (hb : Preceded previous behind) :
    Item.at (behind.headD '\n') c (u ++ rest) = .code := by
  rw [startsString_cons] at hs
  rw [Item.at_eq_code_iff, startsString_cons, hb]
  cases u with
  | nil =>
    have hq : rest.head?.any isQuote = false := by
      cases hd : rest.head? with
      | none => rfl
      | some d => exact (h.not_mark hd).1
    refine ⟨?_, fun hcomment => ?_⟩
    · rw [List.nil_append, hq]
      simpa using hs
    · rcases hcomment.2 with hd | hd
      · exact (h.not_mark hd).2.1 rfl
      · exact (h.not_mark hd).2.2 rfl
  | cons d u => exact ⟨hs, hc⟩

theorem Divided.apart (h : Divided rest) {d : Delimiter} (hq : isQuote d.quote = true)
    {content : List Char} (ha : d.Apart content u) : d.Apart content (u ++ rest) := by
  intro ht hc
  cases u with
  | nil =>
    intro hd
    rw [(h.not_mark hd).1] at hq
    exact absurd hq (by decide)
  | cons e u => exact ha ht hc

namespace Sealed

/-- In front of a sealed text, characters that open and close nothing. -/
theorem marks (hv : ∀ c ∈ v, Mark c) (hcommas : ',' ∈ v → commas = true)
    (h : Sealed commas (v.getLastD previous) u) : Sealed commas previous (v ++ u) := by
  induction v generalizing previous with
  | nil => exact h
  | cons c v ih =>
    have hm := hv c List.mem_cons_self
    have hrest : Sealed commas c (v ++ u) :=
      ih (fun d hd => hv d (List.mem_cons_of_mem c hd)) (fun hd => hcommas (List.mem_cons_of_mem c hd))
        (by rwa [List.getLastD_cons] at h)
    refine .code ?_ (fun hc => hm.not_slash hc.1) hm.not_opener hm.not_closer ?_ hrest
    · exact startsString_eq_false hm.not_quote hm.not_raw _ _
    · rintro rfl
      exact hcommas List.mem_cons_self

theorem firm_string {d : Delimiter} (hq : isQuote d.quote = true) {content text : List Char}
    (he : d.Encodes content text) (u : List Char) : Firm (d.opener ++ (content ++ (d.closer ++ u))) := by
  have hl : d.LiteralOf text (d.opener ++ content ++ d.closer) := ⟨hq, content, rfl, he⟩
  simpa using hl.firm.append u

/-- What is left of the text behind the gap that it starts with. -/
theorem gap_split (h : Sealed commas previous u) : ∃ gap v next, u = gap ++ v ∧ Trivia gap ∧
    Solid Text.isBlank v ∧ Sealed commas next v ∧
      ∀ {behind}, Preceded previous behind → Preceded next (gap.reverse ++ behind) := by
  induction h with
  | nil commas previous => exact ⟨[], [], previous, rfl, .nil, solid_nil, .nil _ _, id⟩
  | @code commas previous c u hs hc ho hk hcomma hu ih =>
    by_cases hb : Text.isBlank c = true
    · obtain ⟨gap, v, next, rfl, hg, hsolid, hv, hnext⟩ := ih
      refine ⟨c :: gap, v, next, rfl, .fill hb hg, hsolid, hv, fun {behind} _ => ?_⟩
      simpa using @hnext (c :: behind) rfl
    · refine ⟨[], c :: u, previous, rfl, .nil, ?_, .code hs hc ho hk hcomma hu, id⟩
      refine solid_cons_iff.mpr ⟨Bool.eq_false_iff.mpr hb, fun he => ?_⟩
      exact not_or.mp fun hd => hc ⟨he, hd⟩
  | @string commas previous d content text u hq hr he ha hu _ =>
    exact ⟨[], _, previous, rfl, .nil, (firm_string hq he u).solid, .string hq hr he ha hu, id⟩
  | @line commas previous body u hb _ ih =>
    obtain ⟨gap, v, next, rfl, hg, hsolid, hv, hnext⟩ := ih
    refine ⟨'/' :: '/' :: (body ++ '\n' :: gap), v, next, by simp, .line hb hg, hsolid, hv, ?_⟩
    intro behind _
    simpa using @hnext ('\n' :: (body.reverse ++ '/' :: '/' :: behind)) rfl
  | @block commas previous body u hb _ ih =>
    obtain ⟨gap, v, next, rfl, hg, hsolid, hv, hnext⟩ := ih
    refine ⟨'/' :: '*' :: (body ++ '*' :: '/' :: gap), v, next, by simp, .block hb hg, hsolid, hv, ?_⟩
    intro behind _
    simpa using @hnext ('/' :: '*' :: (body.reverse ++ '*' :: '/' :: behind)) rfl
  | @brackets commas previous c k v u hk hv hu _ _ =>
    refine ⟨[], c :: (v ++ k :: u), previous, rfl, .nil, ?_, .brackets hk hv hu, id⟩
    rcases closerOf?_cases hk with ⟨rfl, -⟩ | ⟨rfl, -⟩ | ⟨rfl, -⟩ <;>
      exact solid_cons (by decide) (by decide) _

end Sealed

/-- A step that passes every character but brackets and comes back from a pair of brackets to where it was.
In which states it passes commas too, `ready` says. -/
structure Passable {σ α : Type} (step : σ → Char → Except α σ) (ready : Bool → σ → Prop) : Prop where
  other : ∀ {commas state c}, ready commas state → closerOf? c = none → isCloser c = false →
    (c = ',' → commas = true) → step state c = .ok state
  brackets : ∀ {commas state c k}, ready commas state → closerOf? c = some k →
    ∃ inner, step state c = .ok inner ∧ ready true inner ∧ step inner k = .ok state

theorem passable_matchStep : Passable matchStep fun _ awaited => awaited ≠ [] where
  other _ ho hc _ := matchStep_other ho hc _
  brackets hne hk := ⟨_, matchStep_opener hk _, List.cons_ne_nil _ _, matchStep_closer hk hne⟩

theorem passable_rawStep : Passable rawStep fun commas depth => commas = true → depth ≠ 0 where
  other hready ho hc hcomma :=
    rawStep_eq_ok_iff.mpr (.inr (.inr ⟨ho, hc, rfl, fun he => hready (hcomma he)⟩))
  brackets {_ depth c k} _ hk := by
    obtain ⟨hcloser, hopener⟩ := isCloser_of_closerOf? hk
    refine ⟨depth + 1, ?_, fun _ => Nat.succ_ne_zero depth, ?_⟩
    · exact rawStep_eq_ok_iff.mpr (.inl ⟨by rw [hk]; rfl, rfl⟩)
    · exact rawStep_eq_ok_iff.mpr (.inr (.inl ⟨hopener, hcloser, rfl⟩))

section

variable {σ α : Type} {step : σ → Char → Except α σ} {ready : Bool → σ → Prop} {state : σ}

theorem Passable.indifferent (h : Passable step ready) (hready : ready commas state) :
    Indifferent step state :=
  fun _ ho hc hne => h.other hready ho hc fun he => absurd he hne

theorem preceded_literal (d : Delimiter) (content behind : List Char) :
    Preceded d.quote ((d.opener ++ (content ++ d.closer)).reverse ++ behind) := by
  obtain ⟨n, hn⟩ : ∃ n, d.quotes = n + 1 := ⟨d.quotes - 1, by have := d.quotes_pos; omega⟩
  have hc : d.closer.reverse = d.quote :: List.replicate n d.quote := by
    rw [Delimiter.closer, List.reverse_replicate, hn, List.replicate_succ]
  simp [Preceded, hc]

theorem scans_literal {d : Delimiter} {content text : List Char} (hq : isQuote d.quote = true)
    (he : d.Encodes content text) (ha : d.Apart content rest)
    (hraw : d.raw = true → isNameChar (behind.headD '\n') = false) :
    Scans step state ⟨behind, d.opener ++ (content ++ d.closer) ++ rest⟩
      (d.opener ++ (content ++ d.closer)).length state := by
  have hs := startsString_opener hq hraw (content ++ (d.closer ++ rest))
  have hl := stringLength?_eq hq he ha
  rw [← List.append_assoc content, ← List.append_assoc d.opener] at hs hl
  rw [Nat.add_assoc, ← List.length_append, ← List.length_append] at hl
  exact .string hs hl

/-- Brackets are passed if what stands between them is, in every state that it may begin in. -/
theorem Passable.scans_enclosed {c k : Char} (h : Passable step ready) (hready : ready commas state)
    (hk : closerOf? c = some k) (hin : ∀ inner, ready true inner →
      Scans step inner ⟨c :: behind, u ++ k :: rest⟩ u.length inner) :
    Scans step state ⟨behind, c :: (u ++ [k]) ++ rest⟩ (c :: (u ++ [k])).length state := by
  obtain ⟨inner, hopen, hinner, hclose⟩ := h.brackets hready hk
  have ha : c :: (u ++ [k]) ++ rest = c :: (u ++ k :: rest) := by simp
  have hl : (c :: (u ++ [k])).length = 1 + (u.length + 1) := by simp [Nat.add_comm]
  rw [ha, hl]
  have ho : Scans step state ⟨behind, c :: (u ++ k :: rest)⟩ 1 inner :=
    .code rfl (Item.at_bracket (.inl (by rw [hk]; rfl)) _ _) hopen (.here _ _)
  have hc : Scans step inner ⟨u.reverse ++ c :: behind, k :: rest⟩ 1 state :=
    .code rfl (Item.at_bracket (.inr (isCloser_of_closerOf? hk).1) _ _) hclose (.here _ _)
  refine ho.trans ((hin inner hinner).trans ?_)
  rwa [Cursor.forward_append]

/-- A scan passes a sealed text, and what it counts is what it was before. -/
theorem Sealed.scans (hstep : Passable step ready) (h : Sealed commas previous u)
    (hready : ready commas state) (hb : Preceded previous behind) (hr : Divided rest) :
    Scans step state ⟨behind, u ++ rest⟩ u.length state := by
  -- By induction on the length, since the gap in front of an item is passed with it.
  induction hl : u.length using Nat.strongRecOn generalizing commas previous u state behind rest with
  | ind l ih =>
    subst hl
    obtain ⟨gap, v, next, rfl, hg, hsolid, hv, hnext⟩ := h.gap_split
    have hgap : Scans step state ⟨behind, gap ++ (v ++ rest)⟩ gap.length state := by
      have ht := (hstep.indifferent hready).trivia ⟨behind, gap ++ (v ++ rest)⟩
      rwa [triviaLength, hg.gapLength_eq (by decide) (hr.solid_append hsolid)] at ht
    rw [List.append_assoc, List.length_append]
    refine hgap.trans ?_
    rw [Cursor.forward_append]
    have hb := hnext hb
    generalize gap.reverse ++ behind = behind at hb
    cases hv with
    | nil => exact .here _ _
    | @code _ _ c u hs hc ho hk hcomma hu =>
      have ht := ih u.length (by simp; omega) hu hready (show Preceded c (c :: behind) from rfl) hr rfl
      rw [List.length_cons, Nat.add_comm]
      exact .code rfl (hr.item hs hc hb) (hstep.other hready ho hk hcomma) ht
    | @string _ _ d content text u hq hraw he ha hu =>
      have hstring : Scans step state ⟨behind, d.opener ++ (content ++ d.closer) ++ (u ++ rest)⟩ _ state :=
        scans_literal hq he (hr.apart hq ha) (hb ▸ hraw)
      have hlt : u.length < (gap ++ (d.opener ++ (content ++ (d.closer ++ u)))).length := by
        have := d.quotes_pos
        simp only [List.length_append, d.length_closer]
        omega
      have ht := ih u.length hlt hu hready (preceded_literal d content behind) hr rfl
      have hsame : d.opener ++ (content ++ (d.closer ++ u)) = d.opener ++ (content ++ d.closer) ++ u := by
        simp
      rw [hsame, List.append_assoc _ u rest, List.length_append]
      refine hstring.trans ?_
      rwa [Cursor.forward_append]
    | line _ _ => exact absurd rfl ((solid_cons_iff.mp hsolid).2 rfl).1
    | block _ _ => exact absurd rfl ((solid_cons_iff.mp hsolid).2 rfl).2
    | @brackets _ _ c k v u hk hv hu =>
      have hafter : Preceded k ((c :: (v ++ [k])).reverse ++ behind) := by simp [Preceded]
      have hin : ∀ inner, ready true inner →
          Scans step inner ⟨c :: behind, v ++ k :: (u ++ rest)⟩ v.length inner := fun _ hinner =>
        ih v.length (by simp; omega) hv hinner (show Preceded c (c :: behind) from rfl)
          (divided_closer hk (u ++ rest)) rfl
      have ht := ih u.length (by simp; omega) hu hready hafter hr rfl
      have hsame : c :: (v ++ k :: u) = c :: (v ++ [k]) ++ u := by simp
      rw [hsame, List.append_assoc, List.length_append]
      refine (hstep.scans_enclosed hready hk hin).trans ?_
      rwa [Cursor.forward_append]

end

theorem Sealed.crosses (h : Sealed commas previous u) (hb : Preceded previous behind)
    (hr : Divided rest) : Crosses behind u rest :=
  fun _ hne => h.scans passable_matchStep hne hb hr

theorem Sealed.scans_raw (h : Sealed false previous u) (hb : Preceded previous behind)
    (hr : Divided rest) : Scans rawStep 0 ⟨behind, u ++ rest⟩ u.length 0 :=
  h.scans passable_rawStep (fun hf => absurd hf Bool.false_ne_true) hb hr

theorem Sealed.head?_ne_comma (h : Sealed false previous u) : u.head? ≠ some ',' := by
  generalize hcommas : false = commas at h
  cases h with
  | nil => simp
  | code _ _ _ _ hcomma _ =>
    intro hd
    have := hcomma (Option.some.inj hd)
    rw [← hcommas] at this
    exact absurd this Bool.false_ne_true
  | string hq _ he _ _ =>
    obtain ⟨c, cs, hu, -, hc⟩ := firm_string hq he _
    rw [hu]
    intro hd
    exact hc (by simp [Option.some.inj hd])
  | line _ _ | block _ _ => simp
  | brackets hk _ _ => rcases closerOf?_cases hk with ⟨rfl, -⟩ | ⟨rfl, -⟩ | ⟨rfl, -⟩ <;> simp

end WidgetJsx.Expression
