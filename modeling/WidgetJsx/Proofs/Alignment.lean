import WidgetJsx.Proofs.Swap

/-! What the readers measure ahead of joined cursors. Words and literals are the same in both texts; gaps,
brackets and raw text lead to places that correspond. -/

namespace WidgetJsx.Expression

open Text (Cursor)

theorem Edge.item_code {s : Cursor} {c : Char} {cs : List Char} (h : Edge s 1) (ha : s.ahead = c :: cs) :
    Item.at s.previous c cs = .code := by
  generalize hn : 1 = n at h
  cases h with
  | here => cases hn
  | code ha' hi _ _ =>
    obtain ⟨rfl, rfl⟩ := List.cons.inj (ha.symm.trans ha')
    exact hi
  | @inert _ _ _ _ _ k m ha' hi _ =>
    obtain rfl : k = 0 := by omega
    rcases Item.at_eq_inert_iff.mp hi with ⟨hs, hl⟩ | ⟨-, hc, hl⟩
    · have := (two_le_of_stringLength? hs hl).1
      omega
    · have := two_le_triviaLength hc
      omega

theorem Edge.stringLength_le {s : Cursor} {m n : Nat} (h : Edge s m) (hm : m ≠ 0)
    (hs : startsString s.previous s.ahead = true) (hl : stringLength? s.ahead = some n) : n ≤ m := by
  cases h with
  | here => exact absurd rfl hm
  | code ha hi =>
    rw [ha] at hs
    simp [(Item.at_eq_code_iff.mp hi).1] at hs
  | inert ha hi =>
    rw [ha] at hs hl
    rcases Item.at_eq_inert_iff.mp hi with ⟨-, hk⟩ | ⟨hf, -⟩
    · rw [hl] at hk
      cases hk
      omega
    · simp [hf] at hs

/-- Neither white space nor the start of a comment. -/
def Gapless (u : List Char) : Prop := ∀ c ∈ u, Text.isBlank c = false ∧ c ≠ '/'

theorem PathOf.gapless {names : List (List Char)} {u : List Char} (h : PathOf names u) : Gapless u := by
  intro c hc
  rcases h.isNameChar_or_dot c hc with hname | rfl
  · refine ⟨isBlank_eq_false_of_isNameChar hname, ?_⟩
    rintro rfl
    exact absurd hname (by decide)
  · decide

theorem IsName.gapless {u : List Char} (h : IsName u) : Gapless u := (pathOf_singleton h).gapless

theorem Loose.prefix_append_iff {u v rest : List Char} (h : Loose rest) (hu : Gapless u) :
    u <+: v ++ rest ↔ u <+: v := by
  refine ⟨fun hp => ?_, fun hp => hp.trans (List.prefix_append _ _)⟩
  induction v generalizing u with
  | nil =>
    cases u with
    | nil => exact List.nil_prefix
    | cons c u =>
      obtain ⟨more, rfl⟩ := hp
      obtain ⟨hb, hs⟩ := hu c List.mem_cons_self
      rcases h c rfl with hc | hc
      · rw [hb] at hc
        cases hc
      · exact absurd hc hs
  | cons d v ih =>
    cases u with
    | nil => exact List.nil_prefix
    | cons c u =>
      obtain ⟨rfl, hmore⟩ := List.cons_prefix_cons.mp hp
      exact List.cons_prefix_cons.mpr
        ⟨rfl, ih (fun c hc => hu c (List.mem_cons_of_mem _ hc)) hmore⟩

theorem readKey?_eq_some_iff {s : Cursor} {key : String} {n : Nat} :
    readKey? s = some (key, n) ↔ 0 < nameLength s.ahead ∧ key = s.text (nameLength s.ahead) ∧
      ∃ t, t = s.forward (nameLength s.ahead + triviaLength (s.ahead.drop (nameLength s.ahead))) ∧
        t.next? = some ':' ∧ (t.forward 1).next? ≠ some ':' ∧
        n = nameLength s.ahead + triviaLength (s.ahead.drop (nameLength s.ahead)) + 1 +
          triviaLength (t.forward 1).ahead := by
  simp only [readKey?, Cursor.next?, exists_eq_left, Cursor.forward_ahead]
  cases hd : s.ahead.drop (nameLength s.ahead + triviaLength (s.ahead.drop (nameLength s.ahead))) with
  | nil => simp
  | cons c cs =>
    by_cases hc : c = ':'
    · subst hc
      simp only [List.drop_succ_cons, List.drop_zero, List.head?_cons]
      by_cases hn : nameLength s.ahead = 0 ∨ cs.head? = some ':'
      · rw [if_pos hn]
        rcases hn with hn | hn
        · simp [hn]
        · simp [hn]
      · rw [if_neg hn]
        rw [not_or] at hn
        simp only [Option.some.injEq, Prod.mk.injEq, true_and]
        constructor
        · rintro ⟨rfl, rfl⟩
          exact ⟨Nat.pos_of_ne_zero hn.1, rfl, hn.2, rfl⟩
        · rintro ⟨-, rfl, -, rfl⟩
          exact ⟨rfl, rfl⟩
    · simp [hc]

namespace Swap

variable {core : List Char} {w v : Swap} {s s' : Cursor} {m m' n n' : Nat}

/-- The gap is not next. -/
def Ready (w : Swap) : Prop := w.front ≠ [] ∨ w.Idle

theorem Meets.zero (w : Swap) (s : Cursor) : w.Meets s 0 0 := .front (Nat.zero_le _) (.here _ _)

theorem Meets.back_of_eq (m : Nat) (hn : n = w.front.length + w.gap.length + m)
    (hn' : n' = w.front.length + w.gap'.length + m) : w.Meets s n n' := by
  rw [hn, hn']
  exact .back m

theorem Ready.meets_zero (hr : w.Ready) (h : w.Meets s 0 n) : n = 0 := by
  rcases hr with hne | hi
  · have hpos := List.length_pos_iff.mpr hne
    generalize hz : 0 = z at h
    cases h with
    | front => rfl
    | back => omega
  · exact (hi.eq_of_meets h).symm

theorem Ready.meets_max (hr : w.Ready) (h : w.Meets s n n') (h₁ : n = 0 → w.Meets s 1 1) :
    w.Meets s (max 1 n) (max 1 n') := by
  rcases Nat.eq_zero_or_pos n with rfl | hn
  · rw [hr.meets_zero h]
    exact h₁ rfl
  · have hn' : 0 < n' := by
      rcases hr with hne | hi
      · have hpos := List.length_pos_iff.mpr hne
        cases h with
        | front => exact hn
        | back => omega
      · exact hi.eq_of_meets h ▸ hn
    rwa [Nat.max_eq_right hn, Nat.max_eq_right hn']

namespace Joins

theorem startsString (h : w.Joins core s s') :
    startsString s.previous s.ahead = Expression.startsString s'.previous s'.ahead := by
  rcases h.fair with hi | hf
  · exact (h.abreast hi).startsString
  · rw [h.ahead, h.ahead', hf.loose.startsString, hf.loose'.startsString]
    cases hw : w.front with
    | nil => rfl
    | cons c cs => exact startsString_previous (h.previous (.inl (by simp [h.ahead, hw]))) _

theorem string (h : w.Joins core s s') (hs : Expression.startsString s.previous s.ahead = true)
    (hl : stringLength? s.ahead = some n) :
    stringLength? s'.ahead = some n ∧ stringText n s'.ahead = stringText n s.ahead ∧ w.Meets s n n := by
  rcases h.fair with hi | hf
  · rw [← (h.abreast hi).ahead]
    exact ⟨hl, rfl, hi.meets s n⟩
  · have hne : w.front.length ≠ 0 := by
      intro hz
      rw [h.ahead, hf.loose.startsString, List.length_eq_zero_iff.mp hz] at hs
      cases hs
    have hle := Edge.stringLength_le hf.edge hne hs hl
    have hquote : ∀ c ∈ (w.gap' ++ w.back).head?, isQuote c = false :=
      fun c hc => (hf.loose'.breaks c hc).2.2
    have hedge := (scans_string hs hl []).edge
    rw [h.ahead] at hs hl
    rw [h.ahead, h.ahead']
    exact ⟨stringLength?_congr hs hl hle hquote, stringText_congr hs hl hle hquote, .front hle hedge⟩

theorem prefix_iff (h : w.Joins core s s') {u : List Char} (hu : Gapless u) :
    u <+: s.ahead ↔ u <+: s'.ahead :=
  iff_of_eq (h.eq_of_loose fun hr _ => propext (hr.prefix_append_iff hu))

theorem next?_iff (h : w.Joins core s s') {c : Char} (hb : Text.isBlank c = false) (hs : c ≠ '/') :
    s.next? = some c ↔ s'.next? = some c := by
  have hhead : ∀ t : Cursor, t.next? = some c ↔ [c] <+: t.ahead := fun t => by
    rw [Cursor.next?, List.head?_eq_some_iff]
    exact exists_congr fun cs => eq_comm
  rw [hhead, hhead]
  exact h.prefix_iff (by simpa [Gapless] using ⟨hb, hs⟩)

theorem meets_of_prefix (h : w.Joins core s s') {u : List Char} (hu : Gapless u) (hp : u <+: s.ahead)
    (he : Edge s u.length) : w.Meets s u.length u.length := by
  rcases h.fair with hi | hf
  · exact hi.meets s _
  · rw [h.ahead, hf.loose.prefix_append_iff hu] at hp
    exact .front hp.length_le he

theorem meets_next (h : w.Joins core s s') {c : Char} (hn : s.next? = some c)
    (hb : Text.isBlank c = false) (hs : c ≠ '/') (he : Edge s 1) : w.Meets s 1 1 := by
  obtain ⟨cs, ha⟩ := List.head?_eq_some_iff.mp hn
  exact h.meets_of_prefix (u := [c]) (by simpa [Gapless] using ⟨hb, hs⟩) ⟨cs, ha.symm⟩ he

theorem ready_of_next? (h : w.Joins core s s') {c : Char} (hn : s.next? = some c)
    (hb : Text.isBlank c = false) (hs : c ≠ '/') : w.Ready := by
  rcases h.fair with hi | hf
  · exact .inr hi
  · refine .inl fun hnil => ?_
    rw [Cursor.next?, h.ahead, hnil] at hn
    rcases hf.loose c hn with hc | hc
    · rw [hb] at hc
      cases hc
    · exact hs hc

theorem next?_eq (h : w.Joins core s s') (hr : w.Ready) : s.next? = s'.next? := by
  rcases hr with hne | hi
  · obtain ⟨c, cs, hw⟩ := List.exists_cons_of_ne_nil hne
    rw [Cursor.next?, Cursor.next?, h.ahead, h.ahead', hw]
    rfl
  · rw [Cursor.next?, Cursor.next?, (h.abreast hi).ahead]

theorem ahead_eq_nil_iff (h : w.Joins core s s') (hr : w.Ready) : s.ahead = [] ↔ s'.ahead = [] := by
  rw [← List.head?_eq_none_iff, ← List.head?_eq_none_iff]
  exact iff_of_eq (congrArg (· = none) (h.next?_eq hr))

/-- Behind a gap the cursors are joined, with the other gap behind them or further ahead. -/
theorem gap {f : Char → Bool} (hf : Filler f) (h : w.Joins core s s') :
    ∃ v : Swap, v.Ready ∧ w.Leads core v s s' (gapLength f s.ahead) (gapLength f s'.ahead) := by
  rcases h.fair with hi | hfair
  · obtain ⟨v, hv, hl⟩ := h.leads_idle hi (gapLength f s.ahead)
    rw [← (h.abreast hi).ahead]
    exact ⟨v, .inr hv, hl⟩
  have hedge : Edge s (gapLength f s.ahead) := scans_gap hf.blank hf.mark (fun _ _ => rfl) s
  have hcases : ∀ (t : Cursor) {gap : List Char}, t.ahead = w.front ++ (gap ++ w.back) →
      Edge t w.front.length → Trails gap w.back →
      gapLength f w.front < w.front.length ∧ gapLength f t.ahead = gapLength f w.front ∨
        gapLength f w.front = w.front.length ∧
          gapLength f t.ahead = w.front.length + gap.length + gapLength f w.back := by
    rintro ⟨behind, ahead⟩ gap rfl he ht
    have := hf.gapLength_append he rfl
    rwa [ht.gapLength_append hf, ← Nat.add_assoc] at this
  rcases hcases s h.ahead hfair.edge hfair.trails with ⟨hlt, hl⟩ | ⟨hfront, hl⟩
  · obtain ⟨-, hl'⟩ | ⟨hfront, -⟩ := hcases s' h.ahead' hfair.edge' hfair.trails'
    · have hlead := h.leads_front hfair (by omega) hedge
      refine ⟨⟨w.front.drop (gapLength f s.ahead), w.gap, w.gap', w.back⟩, .inl ?_, ?_⟩
      · rw [← List.length_pos_iff, List.length_drop]
        omega
      · rwa [hl', ← hl]
    · omega
  · obtain ⟨hlt, -⟩ | ⟨-, hl'⟩ := hcases s' h.ahead' hfair.edge' hfair.trails'
    · omega
    · obtain ⟨v, hv, hlead⟩ := h.leads_back hfair (gapLength f w.back)
      rw [hl, hl']
      exact ⟨v, .inr hv, hlead⟩

theorem trivia (h : w.Joins core s s') : ∃ v : Swap, v.Ready ∧
    w.Leads core v s s' (triviaLength s.ahead) (triviaLength s'.ahead) :=
  h.gap filler_isBlank

section

variable {σ α : Type} {step : σ → Char → Except α σ} {state : σ} {a : α}

/-- A scan that gaps do not change halts at places that correspond, and so do the places behind. -/
theorem scanFrom (h : w.Joins core s s') (hi : ∀ state, Indifferent step state)
    (hs : scanFrom step state s = some (a, m)) :
    ∃ m', Expression.scanFrom step state s' = some (a, m') ∧ w.Meets s m m' ∧
      w.Meets s (m + 1) (m' + 1) := by
  rcases h.fair with hidle | hf
  · refine ⟨m, ?_, hidle.meets s m, hidle.meets s _⟩
    rw [← hs]
    exact ((h.abreast hidle).scanFrom step state).symm
  rcases Edge.scans_or hf.edge step state with ⟨final, hfront⟩ | ⟨k, hk, b, hb⟩
  · -- The scan passes the gap, and goes on behind it in one way.
    have hpass : ∀ (t : Cursor) {gap : List Char}, t.ahead = w.front ++ (gap ++ w.back) →
        Trails gap w.back → Scans step state t w.front.length final →
        Scans step state t (w.front.length + gap.length + triviaLength w.back) final := by
      intro t gap ha ht hsc
      have := hsc.trans ((hi final).trivia (t.forward w.front.length))
      rwa [Cursor.forward_ahead, ha, List.drop_left, triviaLength, ht.gapLength_append filler_isBlank,
        ← Nat.add_assoc] at this
    rw [(hpass s h.ahead hf.trails hfront).scanFrom_eq] at hs
    rw [(hpass s' h.ahead' hf.trails' (hf.scans h hfront le_rfl)).scanFrom_eq,
      ← (hf.abreast_back h _).scanFrom step final]
    obtain ⟨⟨b, k⟩, hk, hmap⟩ := Option.map_eq_some_iff.mp hs
    cases hmap
    rw [hk]
    exact ⟨_, rfl, .back_of_eq _ (Nat.add_assoc _ _ k) (Nat.add_assoc _ _ k),
      .back_of_eq (triviaLength w.back + (k + 1)) (by omega) (by omega)⟩
  · obtain ⟨rfl, rfl⟩ : b = a ∧ k = m := by simpa [hs] using hb.symm
    -- The scan halts in the front, which is the same in both texts.
    obtain ⟨final, c, cs, hsc, ha, hitem, hstep⟩ := scans_of_scanFrom hs
    have hone : Edge s (k + 1) := hsc.edge.trans (.code ha hitem rfl (.here _ _))
    have hsc' := hf.scans h hsc hk.le
    have hone' : Edge (s'.forward k) 1 := by
      have := hsc'.edge.tail (hf.edge_of_le h hone hk) (Nat.le_succ k)
      rwa [Nat.add_sub_cancel_left] at this
    rw [Cursor.forward_ahead, h.ahead, List.drop_append_of_le_length hk.le] at ha
    obtain ⟨ds, hds⟩ : ∃ ds, (s'.forward k).ahead = c :: ds := by
      rw [Cursor.forward_ahead, h.ahead', List.drop_append_of_le_length hk.le]
      cases hd : w.front.drop k with
      | nil =>
        have := List.drop_eq_nil_iff.mp hd
        omega
      | cons d ds =>
        rw [hd] at ha
        cases ha
        exact ⟨_, rfl⟩
    exact ⟨k, hsc'.scanFrom_eq_some hds (hone'.item_code hds) hstep, .front hk.le hsc.edge, .front hk hone⟩

end

theorem closing? (h : w.Joins core s s') (hc : closing? s.previous s.ahead = some n) :
    ∃ n', Expression.closing? s'.previous s'.ahead = some n' ∧ w.Meets s n n' ∧
      w.Meets s (n + 1) (n' + 1) := by
  obtain ⟨n', hn', hm⟩ := h.scanFrom indifferent_matchStep (closing?_eq_some_iff.mp hc)
  exact ⟨n', closing?_eq_some_iff.mpr hn', hm⟩

theorem encloses (h : w.Joins core s s') {c k : Char} (hn : s.next? = some c)
    (hk : closerOf? c = some k) {inside : Cursor} (he : Encloses s inside n) :
    ∃ inside' n', Encloses s' inside' n' ∧ w.Meets s n n' ∧ ∃ v : Swap, v.Joins core inside inside' := by
  obtain ⟨m, hm, rfl, rfl⟩ := he
  obtain ⟨cs, ha⟩ := List.head?_eq_some_iff.mp hn
  obtain ⟨m', hm', hmeet, hlast⟩ := h.closing? hm
  obtain ⟨ha', hb, hs⟩ : s'.next? = some c ∧ Text.isBlank c = false ∧ c ≠ '/' := by
    have hmark : Text.isBlank c = false ∧ c ≠ '/' := by
      rcases closerOf?_cases hk with ⟨rfl, -⟩ | ⟨rfl, -⟩ | ⟨rfl, -⟩ <;> decide
    exact ⟨(h.next?_iff hmark.1 hmark.2).mp hn, hmark⟩
  obtain ⟨cs', ha'⟩ := List.head?_eq_some_iff.mp ha'
  have hpos := (scans_of_closing? ha hk hm).1
  have hpos' := (scans_of_closing? ha' hk hm').1
  have hone := h.meets_next hn hb hs (scans_opener ha hk []).edge
  obtain ⟨x, hx, hkeep⟩ := h.within hmeet
  obtain ⟨v, hv⟩ := hx.leads (hkeep 1 hpos hone)
  refine ⟨_, _, ⟨m', hm', rfl, rfl⟩, hlast, v, ?_⟩
  rw [← Cursor.forward_within hpos, ← Cursor.forward_within hpos']
  exact hv.joins

theorem rawLength (h : w.Joins core s s') (hr : w.Ready) :
    w.Meets s (rawLength s.previous s.ahead) (Expression.rawLength s'.previous s'.ahead) ∧
      (Expression.rawLength s.previous s.ahead = 0 → s.ahead ≠ [] → w.Meets s 1 1) := by
  rw [rawLength_eq, rawLength_eq]
  cases hs : Expression.scanFrom rawStep 0 s with
  | some halt =>
    obtain ⟨a, m⟩ := halt
    obtain ⟨m', hm', hmeet, hnext⟩ := h.scanFrom indifferent_rawStep hs
    rw [hm']
    refine ⟨hmeet, fun hz _ => ?_⟩
    obtain rfl : m = 0 := hz
    rwa [hr.meets_zero hmeet] at hnext
  | none =>
    cases hs' : Expression.scanFrom rawStep 0 s' with
    | some halt =>
      obtain ⟨a, m⟩ := halt
      obtain ⟨m', hm', -⟩ := h.symm.scanFrom indifferent_rawStep hs'
      rw [hs] at hm'
      cases hm'
    | none =>
      refine ⟨?_, fun hz hne => absurd (List.length_eq_zero_iff.mp hz) hne⟩
      simp only [Option.elim_none]
      rw [h.ahead, h.ahead']
      exact .back_of_eq w.back.length (by simp [Nat.add_assoc]) (by simp [Nat.add_assoc])

/-- Angle brackets are closed at an edge in front of the gap, or behind the gap. -/
theorem angleClosing? (h : w.Joins core s s') (hn : s.next? = some '<') (ht : typedList? s ≠ none)
    (ha : angleClosing? s.ahead = some n) :
    ∃ n', Expression.angleClosing? s'.ahead = some n' ∧ w.Meets s (n + 1) (n' + 1) := by
  rcases h.fair with hi | hf
  · refine ⟨n, ?_, hi.meets s _⟩
    rw [← (h.abreast hi).ahead]
    exact ha
  have hhead : w.front.head? = some '<' := by
    obtain hne | hi := h.ready_of_next? hn (by decide) (by decide)
    · obtain ⟨c, cs, hc⟩ := List.exists_cons_of_ne_nil hne
      rw [Cursor.next?, h.ahead, hc] at hn
      rw [hc]
      exact hn
    · rw [Cursor.next?, h.ahead, hi.1, hi.2.1] at hn
      rcases hf.loose '<' (by simpa [hi.2.1] using hn) with hb | hb
      · exact absurd hb (by decide)
      · exact absurd hb (by decide)
  rw [h.ahead] at ha
  rw [h.ahead']
  -- The front closes its brackets, or both gaps have as many and the count goes on behind them.
  cases hf.angles 0 (.here _ _) hhead with
  | @closed k hc he =>
    obtain ⟨hk, hrest⟩ := angleClosing?_go_of_some hc
    obtain rfl : k = n := Option.some.inj ((hrest _).symm.trans ha)
    rw [Nat.zero_add] at hk he
    exact ⟨k, hrest _, .front hk he⟩
  | untyped hnone => exact absurd hnone ht
  | unclosed hnone hangles =>
    rw [List.drop_zero] at hnone
    have hfilter : (w.front ++ w.gap).filter isAngle = (w.front ++ w.gap').filter isAngle := by
      rw [List.filter_append, List.filter_append, hangles]
    have hnone' : Expression.angleClosing? (w.front ++ w.gap') = none := by
      rw [Expression.angleClosing?, angleClosing?_go_eq_none_iff 0 0 0] at hnone ⊢
      rwa [← hfilter]
    have hdepth : angleDepth 0 (w.front ++ w.gap) = angleDepth 0 (w.front ++ w.gap') := by
      rw [← angleDepth_filter, hfilter, angleDepth_filter]
    rw [← List.append_assoc, Expression.angleClosing?, angleClosing?_go_of_none hnone, Nat.zero_add,
      ← Nat.add_zero (List.length _), angleClosing?_go_add] at ha
    rw [← List.append_assoc, Expression.angleClosing?, angleClosing?_go_of_none hnone', Nat.zero_add,
      ← Nat.add_zero (List.length _), angleClosing?_go_add, ← hdepth]
    obtain ⟨k, hk, rfl⟩ := Option.map_eq_some_iff.mp ha
    rw [hk]
    exact ⟨_, rfl, .back_of_eq (k + 1) (by simp [Nat.add_assoc]) (by simp [Nat.add_assoc])⟩

theorem startsWithWord (h : w.Joins core s s') {word : String} (hw : IsName word.toList) :
    startsWithWord word s.ahead = Expression.startsWithWord word s'.ahead :=
  h.eq_of_loose fun hr u => hr.startsWithWord u hw

theorem meets_word (h : w.Joins core s s') {word : String} (hs : Expression.startsWithWord word s.ahead = true)
    (hw : IsName word.toList) (hr : word.toList ≠ ['r'] ∧ ¬ ['.', 'r'] <:+ word.toList) :
    w.Meets s word.toList.length word.toList.length := by
  obtain ⟨rest, hrest, -⟩ := startsWithWord_iff.mp hs
  exact h.meets_of_prefix hw.gapless ⟨rest, hrest.symm⟩ (scans_startsWithWord hs hw hr []).edge

theorem keyword (h : w.Joins core s s') : ∃ v : Swap, (w.Ready → v.Ready) ∧
    w.Leads core v s s' (keywordLength s.ahead) (keywordLength s'.ahead) := by
  have hword : ∀ word ∈ keywords, Expression.startsWithWord word s.ahead = true →
      ∃ v : Swap, v.Ready ∧ w.Leads core v s s'
        (word.toList.length + triviaLength (s.ahead.drop word.toList.length))
        (word.toList.length + triviaLength (s'.ahead.drop word.toList.length)) := by
    intro word hm hs
    have hr : word.toList ≠ ['r'] ∧ ¬ ['.', 'r'] <:+ word.toList := by
      rcases mem_keywords hm with rfl | rfl <;> decide
    obtain ⟨x, hx⟩ := h.leads (h.meets_word hs (isName_of_mem_keywords word hm) hr)
    obtain ⟨v, hv, hgap⟩ := hx.joins.trivia
    rw [Cursor.forward_ahead, Cursor.forward_ahead] at hgap
    exact ⟨v, hv, hx.trans hgap⟩
  unfold keywordLength
  rw [← h.startsWithWord (isName_of_mem_keywords "const" (by decide)),
    ← h.startsWithWord (isName_of_mem_keywords "new" (by decide))]
  split
  · rename_i hs
    obtain ⟨v, hv, hl⟩ := hword "const" (by decide) hs
    exact ⟨v, fun _ => hv, hl⟩
  split
  · rename_i hs
    obtain ⟨v, hv, hl⟩ := hword "new" (by decide) hs
    exact ⟨v, fun _ => hv, hl⟩
  · obtain ⟨v, hv⟩ := h.leads (.zero w s)
    refine ⟨w, id, ?_, fun k k' hk => ?_⟩
    · simpa only [Cursor.forward_zero] using h
    · simpa only [Nat.zero_add, Cursor.forward_zero] using hk

theorem pathLength_eq (h : w.Joins core s s') : pathLength s.ahead = pathLength s'.ahead :=
  h.eq_of_loose Loose.pathLength

theorem text_path (h : w.Joins core s s') :
    s.text (pathLength s.ahead) = s'.text (pathLength s'.ahead) := by
  rw [← h.pathLength_eq, Cursor.text, Cursor.text, h.take_eq_of_loose Loose.pathLength pathLength_le]

/-- A path is passed in both texts, unless what follows makes a raw string of its end. -/
theorem meets_path (h : w.Joins core s s')
    (hc : Clear (s.ahead.take (pathLength s.ahead)) (s.ahead.drop (pathLength s.ahead))) :
    w.Meets s (pathLength s.ahead) (pathLength s.ahead) :=
  h.meets_of_loose Loose.pathLength pathLength_le (scans_path hc []).edge

theorem meets_dotted (h : w.Joins core s s') (hd : '.' ∈ s.ahead.take (pathLength s.ahead)) :
    w.Meets s (pathLength s.ahead) (pathLength s.ahead) := by
  rcases h.fair with hi | hf
  · exact hi.meets s _
  refine h.meets_path fun q hq hquote => ⟨fun hr => ?_, ?_⟩
  · rw [hr] at hd
    exact absurd hd (by decide)
  -- The `r` in front of the quote would be code of the front, right behind a dot.
  rintro ⟨u, hu⟩
  obtain ⟨rest, hrest⟩ := List.head?_eq_some_iff.mp hq
  have hs : s.ahead = u ++ '.' :: 'r' :: q :: rest := by
    conv_lhs => rw [← List.take_append_drop (pathLength s.ahead) s.ahead, ← hu, hrest]
    simp
  have hpos : 0 < pathLength s.ahead := by
    apply Nat.pos_of_ne_zero
    intro hz
    rw [hz] at hd
    exact absurd hd List.not_mem_nil
  obtain ⟨names, path, more, ha, hl, hp, -⟩ := path_split hpos
  have hpath : ∀ c ∈ u, c ∈ path := by
    intro c hc
    have htake : s.ahead.take (pathLength s.ahead) = path := by rw [hl, ha, List.take_left]
    rw [← htake, ← hu]
    exact List.mem_append_left _ hc
  have hclear : Clear u ('.' :: 'r' :: q :: rest) := by
    intro c hc hquote
    cases hc
    cases hquote
  have hedge : Edge s u.length := by
    have := (scans_word (fun c hc => hp.isNameChar_or_dot c (hpath c hc)) hclear s.behind []).edge
    rwa [← hs] at this
  have hgapless : Gapless (u ++ ['.', 'r', q]) := by
    intro c hc
    rcases List.mem_append.mp hc with hc | hc
    · exact hp.gapless c (hpath c hc)
    · rcases isQuote_cases hquote with rfl | rfl
      · exact (by simp; decide : ∀ c ∈ ['.', 'r', '\''], Text.isBlank c = false ∧ c ≠ '/') c hc
      · exact (by simp; decide : ∀ c ∈ ['.', 'r', '"'], Text.isBlank c = false ∧ c ≠ '/') c hc
  obtain ⟨v, hv⟩ := (hf.loose.prefix_append_iff hgapless).mp ⟨rest, by rw [← h.ahead, hs]; simp⟩
  refine hf.no_raw u.length q hedge hquote ⟨v, ?_⟩
  rw [← hv, List.append_assoc, List.drop_left]

theorem leads_opening (h : w.Joins core s s') {c : Char} (hn : (opening s).next? = some c)
    (hq : isQuote c = false) : ∃ v : Swap, v.Ready ∧ w.Leads core v s s'
      (pathLength s.ahead + triviaLength (s.ahead.drop (pathLength s.ahead)))
      (pathLength s'.ahead + triviaLength (s'.ahead.drop (pathLength s'.ahead))) := by
  have hclear := clear_of_gap (by rwa [← CallAt.opening_ahead]) hq (s.ahead.take (pathLength s.ahead))
  obtain ⟨x, hx⟩ := h.leads (h.meets_path hclear)
  obtain ⟨v, hv, hgap⟩ := hx.joins.trivia
  rw [Cursor.forward_ahead, Cursor.forward_ahead] at hgap
  rw [← h.pathLength_eq]
  exact ⟨v, hv, hx.trans hgap⟩

theorem opening_iff (h : w.Joins core s s') :
    (opening s).next? = some '(' ↔ (opening s').next? = some '(' := by
  have himp : ∀ {core : List Char} {w : Swap} {s s' : Cursor}, w.Joins core s s' →
      (opening s).next? = some '(' → (opening s').next? = some '(' := by
    intro core w s s' h hn
    obtain ⟨v, hv, hl⟩ := h.leads_opening hn (by decide)
    exact (hl.joins.next?_eq hv).symm.trans hn
  exact ⟨himp h, himp h.symm⟩

theorem callAt (h : w.Joins core s s') {call : Call} (hc : CallAt s call n) :
    ∃ call' n', CallAt s' call' n' ∧ call'.name = call.name ∧ w.Meets s n n' ∧
      ∃ v : Swap, v.Joins core call.arguments call'.arguments := by
  obtain ⟨hp, hname, ho, m, he, rfl⟩ := hc
  obtain ⟨v, hv, hl⟩ := h.leads_opening ho (by decide)
  obtain ⟨arguments', m', he', hm, hj⟩ := hl.joins.encloses ho (k := ')') rfl he
  refine ⟨⟨call.name, arguments'⟩, _, ⟨?_, ?_, h.opening_iff.mp ho, m', he', rfl⟩, rfl,
    hl.meets _ _ hm, hj⟩
  · rwa [← h.pathLength_eq]
  · rw [← h.text_path]
    exact hname

theorem typedList? (h : w.Joins core s s') (hn : s.next? = some '<') {list : Cursor}
    (ht : typedList? s = some (list, n)) : list = s.forward n ∧ list.next? = some '[' ∧
      ∃ n', Expression.typedList? s' = some (s'.forward n', n') ∧ ∃ v : Swap, w.Leads core v s s' n n' := by
  obtain ⟨rfl, hlist⟩ := typedList?_cases ht
  refine ⟨rfl, hlist, ?_⟩
  have hsome : Expression.typedList? s ≠ none := by simp [ht]
  simp only [Expression.typedList?] at ht ⊢
  cases ha : Expression.angleClosing? s.ahead with
  | none =>
    rw [ha] at ht
    cases ht
  | some k =>
    obtain ⟨k', hk', hm⟩ := h.angleClosing? hn hsome ha
    obtain ⟨x, hx⟩ := h.leads hm
    obtain ⟨v, hv, hgap⟩ := hx.joins.trivia
    rw [Cursor.forward_ahead, Cursor.forward_ahead] at hgap
    rw [ha] at ht
    rw [hk']
    dsimp only at ht ⊢
    split at ht
    · rename_i hnext
      obtain ⟨-, rfl⟩ := Prod.mk.inj (Option.some.inj ht)
      rw [if_pos]
      · exact ⟨_, rfl, v, hx.trans hgap⟩
      · exact ((hx.trans hgap).joins.next?_eq hv).symm.trans hnext
    · cases ht

theorem typedList?_eq_none (h : w.Joins core s s') (hn : s.next? = some '<')
    (ht : Expression.typedList? s = none) : Expression.typedList? s' = none := by
  have hn' := (h.next?_iff (by decide) (by decide)).mp hn
  cases hs : Expression.typedList? s' with
  | none => rfl
  | some typed =>
    obtain ⟨-, -, n, hl, -⟩ := h.symm.typedList? hn' hs
    rw [ht] at hl
    cases hl

theorem readKey? (h : w.Joins core s s') {key : String} (hk : readKey? s = some (key, n)) :
    ∃ n', Expression.readKey? s' = some (key, n') ∧ ∃ v : Swap, v.Ready ∧ w.Leads core v s s' n n' := by
  obtain ⟨hp, rfl, _, rfl, hn, hcolon, rfl⟩ := readKey?_eq_some_iff.mp hk
  have hlen : nameLength s.ahead = nameLength s'.ahead := h.eq_of_loose Loose.nameLength
  have hclear := clear_of_gap (by rwa [List.drop_drop, ← Cursor.forward_ahead]) (by decide)
    (s.ahead.take (nameLength s.ahead))
  have hname := isName_take hp.ne'
  have hedge : Edge s (nameLength s.ahead) := by
    have := scans_word (fun c hc => .inl (hname.isNameChar c hc)) hclear s.behind []
    rw [List.take_append_drop, List.length_take, Nat.min_eq_left (nameLength_le _)] at this
    exact this.edge
  obtain ⟨x, hx⟩ := h.leads (h.meets_of_loose Loose.nameLength nameLength_le hedge)
  obtain ⟨y, hy, hgap⟩ := hx.joins.trivia
  rw [Cursor.forward_ahead, Cursor.forward_ahead] at hgap
  have hbehind := hx.trans hgap
  obtain ⟨cs, hcs⟩ := List.head?_eq_some_iff.mp hn
  obtain ⟨z, hz⟩ := hbehind.joins.leads
    (hbehind.joins.meets_next hn (by decide) (by decide) ((mark_of_mem (by simp)).scans hcs []).edge)
  obtain ⟨v, hv, hlast⟩ := hz.joins.trivia
  refine ⟨_, readKey?_eq_some_iff.mpr ⟨hlen ▸ hp, ?_, _, rfl, ?_, ?_, rfl⟩, v, hv, ?_⟩
  · rw [← hlen, Cursor.text, Cursor.text, h.take_eq_of_loose Loose.nameLength nameLength_le]
  · rw [← hlen]
    exact (hbehind.joins.next?_eq hy).symm.trans hn
  · rw [← hlen]
    exact fun hn' => hcolon ((hz.joins.next?_iff (by decide) (by decide)).mpr hn')
  · have hall := hbehind.trans (hz.trans hlast)
    rw [← Nat.add_assoc, ← Nat.add_assoc _ 1] at hall
    rwa [← hlen]

end Joins

end Swap

end WidgetJsx.Expression
