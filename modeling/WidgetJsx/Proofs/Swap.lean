import WidgetJsx.Proofs.Edge
import WidgetJsx.Proofs.Body
import WidgetJsx.Proofs.Subtree

/-! Two texts that differ in one gap. A swap is such a pair; two cursors are joined by it when the first is
ahead of the one text and the second ahead of the other. Places of the two texts correspond in front of the
gap and behind it, and every measure that a reader takes leads to places that correspond. -/

namespace WidgetJsx.Expression

open Text (Cursor)

/-- A text with a gap in it, and the gap to put in its place. -/
structure Swap where
  front : List Char
  gap : List Char
  gap' : List Char
  back : List Char

/-- White space and comments; the last comment may be open where nothing follows. -/
def Trails (gap back : List Char) : Prop :=
  Trivia gap ∨ back = [] ∧ triviaLength gap = gap.length

section

variable {f : Char → Bool} {gap back : List Char}

theorem Trails.gapLength_append (hf : Filler f) (h : Trails gap back) :
    gapLength f (gap ++ back) = gap.length + gapLength f back := by
  rcases h with h | ⟨rfl, h⟩
  · exact (h.mono hf.blank).gapLength_append hf.slash back
  · have hle := gapLength_le (f := f) gap
    have hge := gapLength_go_mono hf.blank .between 0 gap
    rw [← gapLength, ← gapLength, ← triviaLength, h] at hge
    rw [List.append_nil, show gapLength f [] = 0 from rfl]
    omega

theorem Trails.loose (h : Trails gap back) (hne : back = [] ∨ gap ≠ []) : Loose (gap ++ back) := by
  have hgap : Loose gap := by
    intro c hc
    obtain ⟨cs, rfl⟩ := List.head?_eq_some_iff.mp hc
    rcases h with h | ⟨-, h⟩
    · cases h with
      | fill hb _ => exact .inl hb
      | line | block => exact .inr rfl
    · have hsolid : ¬ Solid Text.isBlank (c :: cs) := by
        rw [Solid, ← triviaLength, h]
        simp
      rw [solid_cons_iff] at hsolid
      by_contra hn
      rw [not_or] at hn
      exact hsolid ⟨by simpa using hn.1, fun hc => absurd hc hn.2⟩
  rcases hne with rfl | hne
  · rwa [List.append_nil]
  · intro c hc
    obtain ⟨d, cs, rfl⟩ := List.exists_cons_of_ne_nil hne
    exact hgap c hc

/-- A gap may be cut short with what follows it. -/
theorem Trails.take (h : Trails gap back) (n : Nat) : Trails gap (back.take n) := by
  rcases h with h | ⟨rfl, h⟩
  · exact .inl h
  · exact .inr ⟨List.take_nil, h⟩

end

/-- A text that is not too long to be read on its own. -/
def Short (cs : List Char) : Prop := (String.ofList cs).utf8ByteSize ≤ Limits.standard.bytes

theorem Short.of_infix {u cs : List Char} (h : Short cs) (hu : u <:+: cs) : Short u :=
  (utf8ByteSize_le_of_isInfix (by simpa using hu)).trans h

namespace Swap

/-- Both texts are the same. -/
def Idle (w : Swap) : Prop := w.front = [] ∧ w.gap = [] ∧ w.gap' = []

/-- At an angle bracket in front of the gap, types are read alike from both texts: they are closed in front of
the gap at an edge, or open behind it, where the gaps have the same angle brackets, or there are none. -/
inductive Angled (w : Swap) (s s' : Cursor) (i : Nat) : Prop
  | closed {n : Nat} : angleClosing? (w.front.drop i) = some n → Edge s (i + (n + 1)) → Angled w s s' i
  | unclosed : angleClosing? (w.front.drop i ++ w.gap) = none →
      w.gap.filter isAngle = w.gap'.filter isAngle → Angled w s s' i
  | untyped : typedList? (s.forward i) = none → typedList? (s'.forward i) = none → Angled w s s' i

/-- Gaps that make no difference to what is in front of them: an edge lies between, types are read alike, and no
`r` of code stands between a dot and a quote. The front runs up to the white space of the gap. -/
structure Fair (core : List Char) (w : Swap) (s s' : Cursor) : Prop where
  edge : Edge s w.front.length
  edge' : Edge s' w.front.length
  trails : Trails w.gap w.back
  trails' : Trails w.gap' w.back
  filled : w.back = [] ∨ w.gap ≠ [] ∧ w.gap' ≠ []
  core_infix : core <:+: w.gap
  core_last : ∀ c ∈ core.getLast?, Text.isBlank c = false
  last : ∀ c ∈ w.front.getLast?, Text.isBlank c = false
  angles : ∀ i, Edge s i → (w.front.drop i).head? = some '<' → w.Angled s s' i
  no_raw : ∀ i q, Edge s i → isQuote q = true → ¬ ['.', 'r', q] <+: w.front.drop i

/-- One cursor is ahead of the one text of a swap, the other ahead of the other. Where the texts differ,
`core` is part of the first gap. -/
structure Joins (core : List Char) (w : Swap) (s s' : Cursor) : Prop where
  ahead : s.ahead = w.front ++ (w.gap ++ w.back)
  ahead' : s'.ahead = w.front ++ (w.gap' ++ w.back)
  previous : s.ahead ≠ [] ∨ s'.ahead ≠ [] → isNameChar s.previous = isNameChar s'.previous
  short : Short s.ahead
  short' : Short s'.ahead
  fair : w.Idle ∨ w.Fair core s s'

/-- So many characters ahead of the cursors are places that correspond. -/
inductive Meets (w : Swap) (s : Cursor) : Nat → Nat → Prop
  | front {n : Nat} : n ≤ w.front.length → Edge s n → Meets w s n n
  | back (m : Nat) : Meets w s (w.front.length + w.gap.length + m) (w.front.length + w.gap'.length + m)

variable {core : List Char} {w : Swap} {s s' : Cursor} {m n n' : Nat}

namespace Joins

theorem abreast (h : w.Joins core s s') (hi : w.Idle) : Abreast s s' := by
  refine ⟨?_, fun hs => h.previous (.inl hs)⟩
  rw [h.ahead, h.ahead', hi.2.1, hi.2.2]

theorem of_abreast (core : List Char) (h : Abreast s s') (hs : Short s.ahead) :
    Joins core ⟨[], [], [], s.ahead⟩ s s' :=
  ⟨rfl, by simp [h.ahead], fun hne => h.previous (hne.elim id (h.ahead ▸ ·)), hs, h.ahead ▸ hs,
    .inl ⟨rfl, rfl, rfl⟩⟩

end Joins

theorem Idle.meets (h : w.Idle) (s : Cursor) (n : Nat) : w.Meets s n n := by
  have := Meets.back (w := w) (s := s) n
  simpa [h.1, h.2.1, h.2.2] using this

namespace Fair

theorem abreast (h : w.Joins core s s') :
    Abreast (s.within w.front.length) (s'.within w.front.length) := by
  refine ⟨?_, fun hne => h.previous (.inl fun hs => ?_)⟩
  · rw [Cursor.within_ahead, Cursor.within_ahead, h.ahead, h.ahead', List.take_left, List.take_left]
  · simp [hs] at hne

section

variable {σ α : Type} {step : σ → Char → Except α σ} {state final : σ}

theorem scans (h : w.Joins core s s') (hf : w.Fair core s s') (hs : Scans step state s n final)
    (hn : n ≤ w.front.length) : Scans step state s' n final :=
  ((hs.within hn).abreast (abreast h)).of_within hf.edge'

end

theorem edge_of_le (h : w.Joins core s s') (hf : w.Fair core s s') (hs : Edge s n)
    (hn : n ≤ w.front.length) : Edge s' n := hf.scans h hs hn

theorem loose (hf : w.Fair core s s') : Loose (w.gap ++ w.back) :=
  hf.trails.loose (hf.filled.imp_right And.left)

theorem loose' (hf : w.Fair core s s') : Loose (w.gap' ++ w.back) :=
  hf.trails'.loose (hf.filled.imp_right And.right)

end Fair

namespace Joins

/-- What does not look into a gap is the same ahead of both cursors. -/
theorem eq_of_loose (h : w.Joins core s s') {β : Type} {g : List Char → β}
    (hg : ∀ {rest}, Loose rest → ∀ u, g (u ++ rest) = g u) : g s.ahead = g s'.ahead := by
  rcases h.fair with hi | hf
  · rw [(h.abreast hi).ahead]
  · rw [h.ahead, h.ahead', hg hf.loose, hg hf.loose']

/-- A measure that does not look into a gap takes the same text from both. -/
theorem take_eq_of_loose (h : w.Joins core s s') {g : List Char → Nat}
    (hg : ∀ {rest}, Loose rest → ∀ u, g (u ++ rest) = g u) (hle : ∀ u, g u ≤ u.length) :
    s.ahead.take (g s.ahead) = s'.ahead.take (g s.ahead) := by
  rcases h.fair with hi | hf
  · rw [(h.abreast hi).ahead]
  · have hl : g s.ahead ≤ w.front.length := by
      rw [h.ahead, hg hf.loose]
      exact hle _
    rw [h.ahead] at hl ⊢
    rw [h.ahead', List.take_append_of_le_length hl, List.take_append_of_le_length hl]

theorem meets_of_loose (h : w.Joins core s s') {g : List Char → Nat}
    (hg : ∀ {rest}, Loose rest → ∀ u, g (u ++ rest) = g u) (hle : ∀ u, g u ≤ u.length)
    (he : Edge s (g s.ahead)) : w.Meets s (g s.ahead) (g s.ahead) := by
  rcases h.fair with hi | hf
  · exact hi.meets s _
  · refine .front ?_ he
    rw [h.ahead, hg hf.loose]
    exact hle _

end Joins

theorem Idle.eq_of_meets (h : w.Idle) (hm : w.Meets s n n') : n = n' := by
  cases hm with
  | front => rfl
  | back m => simp [h.2.1, h.2.2]

theorem Fair.forward (h : w.Joins core s s') (hf : w.Fair core s s') (hn : n ≤ w.front.length)
    (he : Edge s n) :
    Fair core ⟨w.front.drop n, w.gap, w.gap', w.back⟩ (s.forward n) (s'.forward n) := by
  have hl : (w.front.drop n).length = w.front.length - n := List.length_drop
  refine ⟨hl ▸ he.tail hf.edge hn, hl ▸ (hf.edge_of_le h he hn).tail hf.edge' hn, hf.trails, hf.trails',
    hf.filled, hf.core_infix, hf.core_last, fun c hc => ?_, fun i hi ha => ?_,
    fun i q hi hq hp => hf.no_raw (n + i) q (he.trans hi) hq (by rwa [List.drop_drop] at hp)⟩
  · rw [List.getLast?_drop] at hc
    split at hc
    · cases hc
    · exact hf.last c hc
  · rw [List.drop_drop] at ha
    cases hf.angles (n + i) (he.trans hi) ha with
    | @closed k hk hek =>
      refine .closed (by rwa [List.drop_drop]) ?_
      have := he.tail hek (by omega)
      rwa [show n + i + (k + 1) - n = i + (k + 1) by omega] at this
    | unclosed hk hangles => exact .unclosed (by rwa [List.drop_drop]) hangles
    | untyped ht ht' =>
      exact .untyped (by rwa [Cursor.forward_forward]) (by rwa [Cursor.forward_forward])

theorem isNameChar_previous_of_trails {gap back : List Char} (h : Trails gap back) (hb : back ≠ [])
    (hne : gap ≠ []) (behind : List Char) :
    isNameChar ((gap.reverse ++ behind).headD '\n') = false := by
  rcases h with h | ⟨rfl, -⟩
  · have : isNameChar ((gap.reverse ++ []).headD '\n') = false := h.previous (by decide)
    rw [List.append_nil] at this
    cases hr : gap.reverse with
    | nil => exact absurd (List.reverse_eq_nil_iff.mp hr) hne
    | cons c cs => rwa [hr] at this
  · exact absurd rfl hb

/-- Behind the gap nothing is left of it, not even in the character before the cursors. -/
theorem Fair.abreast_back (h : w.Joins core s s') (hf : w.Fair core s s') (m : Nat) :
    Abreast (s.forward (w.front.length + w.gap.length + m))
      (s'.forward (w.front.length + w.gap'.length + m)) := by
  have ha : ∀ (t : Cursor) (gap : List Char), t.ahead = w.front ++ (gap ++ w.back) →
      t.forward (w.front.length + gap.length + m) =
        (Cursor.mk ((w.front ++ gap).reverse ++ t.behind) w.back).forward m := by
    rintro ⟨behind, ahead⟩ gap rfl
    rw [← List.append_assoc, ← List.length_append, ← Cursor.forward_forward, Cursor.forward_append]
  rw [ha s w.gap h.ahead, ha s' w.gap' h.ahead']
  have hback : Abreast ⟨(w.front ++ w.gap).reverse ++ s.behind, w.back⟩
      ⟨(w.front ++ w.gap').reverse ++ s'.behind, w.back⟩ := by
    refine ⟨rfl, fun hne => ?_⟩
    obtain ⟨hg, hg'⟩ := hf.filled.resolve_left hne
    simp only [Cursor.previous, List.reverse_append, List.append_assoc]
    rw [isNameChar_previous_of_trails hf.trails hne hg,
      isNameChar_previous_of_trails hf.trails' hne hg']
  exact hback.forward m

/-- So many characters ahead the cursors are joined again, and places that correspond there correspond. -/
structure Leads (core : List Char) (w v : Swap) (s s' : Cursor) (n n' : Nat) : Prop where
  joins : v.Joins core (s.forward n) (s'.forward n')
  meets : ∀ k k', v.Meets (s.forward n) k k' → w.Meets s (n + k) (n' + k')

theorem Leads.trans {v x : Swap} {m m' : Nat} (h : w.Leads core v s s' n n')
    (h' : v.Leads core x (s.forward n) (s'.forward n') m m') : w.Leads core x s s' (n + m) (n' + m') := by
  refine ⟨by simpa only [Cursor.forward_forward] using h'.joins, fun k k' hk => ?_⟩
  rw [← Cursor.forward_forward] at hk
  simpa only [Nat.add_assoc] using h.meets _ _ (h'.meets k k' hk)

theorem Leads.here {v : Swap} (h : w.Leads core v s s' n n') : w.Meets s n n' :=
  h.meets 0 0 (.front (Nat.zero_le _) (.here _ _))

theorem Joins.leads_idle (h : w.Joins core s s') (hi : w.Idle) (n : Nat) :
    ∃ v : Swap, v.Idle ∧ w.Leads core v s s' n n := by
  have hshort : Short (s.forward n).ahead := h.short.of_infix (s.forward_suffix n).isInfix
  refine ⟨_, ⟨rfl, rfl, rfl⟩, .of_abreast core ((h.abreast hi).forward n) hshort, fun k k' hk => ?_⟩
  obtain rfl := Idle.eq_of_meets ⟨rfl, rfl, rfl⟩ hk
  exact hi.meets s _

theorem Joins.leads_front (h : w.Joins core s s') (hf : w.Fair core s s') (hn : n ≤ w.front.length)
    (he : Edge s n) : w.Leads core ⟨w.front.drop n, w.gap, w.gap', w.back⟩ s s' n n := by
  have hl : (w.front.drop n).length = w.front.length - n := List.length_drop
  refine ⟨⟨?_, ?_, fun hne => ?_, h.short.of_infix (s.forward_suffix n).isInfix,
    h.short'.of_infix (s'.forward_suffix n).isInfix, .inr (hf.forward h hn he)⟩, fun k k' hk => ?_⟩
  · rw [Cursor.forward_ahead, h.ahead, List.drop_append_of_le_length hn]
  · rw [Cursor.forward_ahead, h.ahead', List.drop_append_of_le_length hn]
  · simp only [Cursor.previous, Cursor.forward_behind, h.ahead, h.ahead',
      List.take_append_of_le_length hn]
    cases (w.front.take n).reverse with
    | nil =>
      refine h.previous (hne.imp (fun hne hs => ?_) fun hne hs => ?_)
      · simp [hs] at hne
      · simp [hs] at hne
    | cons c cs => rfl
  · cases hk with
    | front hk hek =>
      have hk : k ≤ (w.front.drop n).length := hk
      exact .front (by omega) (he.trans hek)
    | back m =>
      have hsum : ∀ l, n + ((w.front.drop n).length + l + m) = w.front.length + l + m := by
        intro l
        omega
      rw [hsum, hsum]
      exact .back m

theorem Joins.leads_back (h : w.Joins core s s') (hf : w.Fair core s s') (m : Nat) :
    ∃ v : Swap, v.Idle ∧ w.Leads core v s s' (w.front.length + w.gap.length + m)
      (w.front.length + w.gap'.length + m) := by
  refine ⟨_, ⟨rfl, rfl, rfl⟩, .of_abreast core (hf.abreast_back h m)
    (h.short.of_infix (s.forward_suffix _).isInfix), fun k k' hk => ?_⟩
  obtain rfl := Idle.eq_of_meets ⟨rfl, rfl, rfl⟩ hk
  rw [Nat.add_assoc, Nat.add_assoc (w.front.length + w.gap'.length)]
  exact .back (m + k)

/-- At places that correspond the cursors are joined. -/
theorem Joins.leads (h : w.Joins core s s') (hm : w.Meets s n n') :
    ∃ v : Swap, w.Leads core v s s' n n' := by
  rcases h.fair with hi | hf
  · obtain rfl := hi.eq_of_meets hm
    obtain ⟨v, -, hv⟩ := h.leads_idle hi n
    exact ⟨v, hv⟩
  cases hm with
  | front hn he => exact ⟨_, h.leads_front hf hn he⟩
  | back m =>
    obtain ⟨v, -, hv⟩ := h.leads_back hf m
    exact ⟨v, hv⟩

theorem le_length_of_head?_drop {cs : List Char} {i : Nat} {c : Char}
    (h : (cs.drop i).head? = some c) : i ≤ cs.length := by
  by_contra hn
  rw [List.drop_eq_nil_of_le (by omega)] at h
  cases h

theorem le_length_of_prefix_drop {u cs : List Char} {i : Nat} {c : Char} (h : c :: u <+: cs.drop i) :
    i ≤ cs.length := by
  obtain ⟨v, hv⟩ := h
  exact le_length_of_head?_drop (c := c) (by rw [← hv]; rfl)

/-- Texts may be cut off behind the front, and the gaps may be cut short. -/
theorem Fair.cut (hf : w.Fair core s s') {gap gap' back : List Char} (hn : w.front.length ≤ n)
    (hn' : w.front.length ≤ n') (ht : Trails gap back) (ht' : Trails gap' back)
    (hfilled : back = [] ∨ gap ≠ [] ∧ gap' ≠ []) (hcore : core <:+: gap)
    (hangles : gap.filter isAngle = w.gap.filter isAngle)
    (hangles' : gap'.filter isAngle = w.gap'.filter isAngle) :
    Fair core ⟨w.front, gap, gap', back⟩ (s.within n) (s'.within n') := by
  have hedge : ∀ {i}, i ≤ w.front.length → Edge (s.within n) i → Edge s i := by
    intro i hi he
    have hw := he.within hi
    rw [Cursor.within_within hn] at hw
    exact hw.of_within hf.edge
  refine ⟨hf.edge.within hn, hf.edge'.within hn', ht, ht', hfilled, hcore, hf.core_last, hf.last,
    fun i hi ha => ?_, fun i q hi hq hp => hf.no_raw i q (hedge (le_length_of_prefix_drop hp) hi) hq hp⟩
  have hle : i ≤ w.front.length := le_length_of_head?_drop ha
  cases hf.angles i (hedge hle hi) ha with
  | closed hk hek =>
    have hl := angleClosing?_lt hk
    simp only [List.length_drop] at hl
    exact .closed hk (hek.within (by omega))
  | unclosed hk hgap =>
    refine .unclosed ?_ ((hangles.trans hgap).trans hangles'.symm)
    rw [angleClosing?, angleClosing?_go_eq_none_iff 0 0 0, List.filter_append] at hk ⊢
    rwa [hangles]
  | untyped ht ht' =>
    refine .untyped ?_ ?_
    · rw [Cursor.forward_within (hle.trans hn)]
      exact typedList?_within ht _
    · rw [Cursor.forward_within (hle.trans hn')]
      exact typedList?_within ht' _

theorem Fair.within (hf : w.Fair core s s') (m : Nat) :
    Fair core ⟨w.front, w.gap, w.gap', w.back.take m⟩
      (s.within (w.front.length + w.gap.length + m))
      (s'.within (w.front.length + w.gap'.length + m)) :=
  hf.cut (by omega) (by omega) (hf.trails.take m) (hf.trails'.take m)
    (hf.filled.imp_left fun hb => by simp [hb]) hf.core_infix rfl rfl

/-- Texts that are cut off at places that correspond are joined, and an edge that comes first stays one. -/
theorem Joins.within (h : w.Joins core s s') (hm : w.Meets s n n') :
    ∃ v : Swap, v.Joins core (s.within n) (s'.within n') ∧
      ∀ k ≤ n, w.Meets s k k → v.Meets (s.within n) k k := by
  have hshort : Short (s.within n).ahead := h.short.of_infix (List.take_prefix _ _).isInfix
  have hshort' : Short (s'.within n').ahead := h.short'.of_infix (List.take_prefix _ _).isInfix
  -- Cut off in front of the gap, or with no gap between them, the texts are the same.
  have hidle : Abreast (s.within n) (s'.within n') →
      ∃ v : Swap, v.Joins core (s.within n) (s'.within n') ∧
        ∀ k ≤ n, w.Meets s k k → v.Meets (s.within n) k k := fun ha =>
    ⟨_, .of_abreast core ha hshort, fun k _ _ => Idle.meets ⟨rfl, rfl, rfl⟩ _ k⟩
  rcases h.fair with hi | hf
  · obtain rfl := hi.eq_of_meets hm
    refine hidle ⟨?_, fun hne => h.previous (.inl fun hs => ?_)⟩
    · rw [Cursor.within_ahead, Cursor.within_ahead, (h.abreast hi).ahead]
    · simp [hs] at hne
  cases hm with
  | front hn he =>
    refine hidle ⟨?_, fun hne => h.previous (.inl fun hs => ?_)⟩
    · rw [Cursor.within_ahead, Cursor.within_ahead, h.ahead, h.ahead',
        List.take_append_of_le_length hn, List.take_append_of_le_length hn]
    · simp [hs] at hne
  | back m =>
    refine ⟨⟨w.front, w.gap, w.gap', w.back.take m⟩, ⟨?_, ?_, fun hne => h.previous ?_, hshort,
      hshort', .inr (hf.within m)⟩, fun k hle hk => ?_⟩
    · rw [Cursor.within_ahead, h.ahead, ← List.append_assoc, ← List.length_append, List.take_length_add_append,
        List.append_assoc]
    · rw [Cursor.within_ahead, h.ahead', ← List.append_assoc, ← List.length_append,
        List.take_length_add_append, List.append_assoc]
    · refine hne.imp (fun hne hs => ?_) fun hne hs => ?_
      · simp [hs] at hne
      · simp [hs] at hne
    · have hmeets : ∀ k', w.Meets s k k' → Meets ⟨w.front, w.gap, w.gap', w.back.take m⟩
          (s.within (w.front.length + w.gap.length + m)) k k' := by
        intro k' hk
        cases hk with
        | front hk he => exact .front hk (he.within hle)
        | back j => exact .back j
      exact hmeets k hk

def flip (w : Swap) : Swap := ⟨w.front, w.gap', w.gap, w.back⟩

/-- The other way round, nothing is said of the gap that is put in. -/
theorem Joins.symm (h : w.Joins core s s') : w.flip.Joins [] s' s := by
  refine ⟨h.ahead', h.ahead, fun hne => (h.previous hne.symm).symm, h.short', h.short,
    h.fair.imp (fun hi => ⟨hi.1, hi.2.2, hi.2.1⟩) fun hf => ?_⟩
  have hedge : ∀ i, i ≤ w.front.length → Edge s' i → Edge s i := fun i hi he =>
    ((he.within hi).abreast (Fair.abreast h).symm).of_within hf.edge
  refine ⟨hf.edge', hf.edge, hf.trails', hf.trails, hf.filled.imp_right And.symm, List.nil_infix,
    by simp, hf.last, fun i hi ha => ?_,
    fun i q hi hq hp => hf.no_raw i q (hedge i (le_length_of_prefix_drop hp) hi) hq hp⟩
  cases hf.angles i (hedge i (le_length_of_head?_drop ha) hi) ha with
  | closed hk hek =>
    have hl := angleClosing?_lt hk
    simp only [List.length_drop] at hl
    exact .closed hk (hf.edge_of_le h hek (by omega))
  | unclosed hk hgap =>
    refine .unclosed ?_ hgap.symm
    rw [angleClosing?, angleClosing?_go_eq_none_iff 0 0 0, List.filter_append] at hk ⊢
    rwa [← show w.gap.filter isAngle = w.flip.gap.filter isAngle from hgap]
  | untyped ht ht' => exact .untyped ht' ht

end Swap

end WidgetJsx.Expression
