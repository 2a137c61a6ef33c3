import WidgetJsx.Proofs.KeptText

/-! Comments outside string literals. The text in front of one ends with white space and comments; with them the
comment is a gap, in place of which another gap may stand. -/

namespace WidgetJsx

namespace Expression

open Text

/-- A comment in front of `rest`: a line up to its end, or a block that is closed. -/
inductive IsComment (rest : List Char) : List Char → Prop
  | line {body : List Char} : '\n' ∉ body → (∀ c ∈ rest.head?, c = '\n') →
      IsComment rest ('/' :: '/' :: body)
  | block {body : List Char} : ¬ ['*', '/'] <:+: body →
      IsComment rest ('/' :: '*' :: (body ++ ['*', '/']))

/-- So many characters ahead is a place outside string literals and comments. -/
inductive Outside : Cursor → Nat → Prop
  | here (s : Cursor) : Outside s 0
  | code {s : Cursor} {c : Char} {cs : List Char} {n : Nat} : s.ahead = c :: cs →
      Item.at s.previous c cs = .code → Outside (s.forward 1) n → Outside s (1 + n)
  | string {s : Cursor} {m n : Nat} : startsString s.previous s.ahead = true →
      stringLength? s.ahead = some m → Outside (s.forward m) n → Outside s (m + n)
  | comment {s : Cursor} {u rest : List Char} {n : Nat} : s.ahead = u ++ rest → IsComment rest u →
      Outside (s.forward u.length) n → Outside s (u.length + n)

section

variable {u rest : List Char}

theorem IsComment.startsComment (h : IsComment rest u) :
    ∃ v, u = '/' :: v ∧ ∀ rest, startsComment '/' (v ++ rest) := by
  cases h with
  | line => exact ⟨_, rfl, fun _ => ⟨rfl, .inl rfl⟩⟩
  | block => exact ⟨_, rfl, fun _ => ⟨rfl, .inr rfl⟩⟩

theorem triviaLength_blank {c : Char} (hc : isBlank c = true) (cs : List Char) :
    triviaLength (c :: cs) = 1 + triviaLength cs := by
  have hnot : ¬ Expression.startsComment c cs := by
    rintro ⟨rfl, -⟩
    exact absurd hc (by decide)
  rw [triviaLength, gapLength_cons hnot, if_pos hc, triviaLength]

theorem IsComment.triviaLength_append (h : IsComment rest u) (hr : rest ≠ []) :
    triviaLength (u ++ rest) = u.length + triviaLength rest := by
  cases h with
  | @line body hb hl =>
    obtain ⟨c, rest, rfl⟩ := List.exists_cons_of_ne_nil hr
    obtain rfl : c = '\n' := hl c rfl
    have := gapLength_line (f := isBlank) hb rest
    rw [triviaLength_blank (by decide), triviaLength, List.cons_append, List.cons_append, this,
      ← triviaLength]
    simp only [List.length_cons]
    omega
  | @block body hb =>
    have := gapLength_block (f := isBlank) hb rest
    rw [triviaLength, List.cons_append, List.cons_append, List.append_assoc, List.cons_append,
      List.singleton_append, this, ← triviaLength]
    simp only [List.length_cons, List.length_append, List.length_nil]

theorem IsComment.trivia_append (h : IsComment rest u) {n : Nat} (hn : (rest.drop n).head? = some '/')
    (ht : Trivia (rest.take n)) : Trivia (u ++ rest.take n) := by
  cases h with
  | line hb hl =>
    cases rest with
    | nil => simp at hn
    | cons c rest =>
      obtain rfl : c = '\n' := hl c rfl
      cases n with
      | zero => cases hn
      | succ n =>
        rw [List.take_succ_cons] at ht ⊢
        cases ht with
        | fill _ ht => exact .line hb ht
  | block hb =>
    rw [List.cons_append, List.cons_append, List.append_assoc]
    exact .block hb ht

/-- With the line break that ends it, a comment is a gap, or the end of the text comes behind it. -/
theorem IsComment.trails (h : IsComment rest u) : ∃ blanks back, rest = blanks ++ back ∧
    (∀ c ∈ blanks, isBlank c = true) ∧ Trails (u ++ blanks) back := by
  cases h with
  | @line body hb hl =>
    cases rest with
    | nil =>
      have hlast : LastGap isBlank ([] ++ '/' :: '/' :: body) := .line .nil hb
      refine ⟨[], [], rfl, by simp, .inr ⟨rfl, ?_⟩⟩
      rw [List.append_nil]
      exact hlast.gapLength_eq (by decide)
    | cons c rest =>
      obtain rfl : c = '\n' := hl c rfl
      exact ⟨['\n'], rest, rfl, List.forall_mem_singleton.mpr (by decide), .inl (.line hb .nil)⟩
  | @block body hb =>
    refine ⟨[], rest, rfl, by simp, .inl ?_⟩
    rw [List.append_nil]
    exact .block hb .nil

/-- The slash that starts a comment is not trimmed from it. -/
theorem IsComment.slash_mem (h : IsComment rest u) : '/' ∈ trimEnd u := by
  have hhead : ∀ (c : Char) (body : List Char), c = '/' ∨ c = '*' → '/' ∈ trimEnd ('/' :: c :: body) := by
    intro c body hc
    have hlast : ∀ d ∈ ['/', c].getLast?, isBlank d = false := by
      rcases hc with rfl | rfl <;> simp <;> decide
    have := trimEnd_append hlast body
    rw [List.cons_append, List.singleton_append] at this
    rw [this]
    exact List.mem_append_left _ List.mem_cons_self
  cases h with
  | line => exact hhead _ _ (.inl rfl)
  | block => exact hhead _ _ (.inr rfl)

end

theorem Trails.append {t gap back : List Char} (ht : Trivia t) (h : Trails gap back) : Trails (t ++ gap) back := by
  rcases h with h | ⟨rfl, h⟩
  · exact .inl (ht.append h)
  · refine .inr ⟨rfl, ?_⟩
    rw [triviaLength, ht.gapLength_append (by decide), ← triviaLength, h, List.length_append]

/-! ### The gap around a comment -/

/-- An item other than a gap ends so many characters ahead. -/
structure Ending (s : Cursor) (n : Nat) : Prop where
  le : triviaLength s.ahead ≤ n
  edge : Edge (s.forward (triviaLength s.ahead)) (n - triviaLength s.ahead)
  last : ∃ c, (s.ahead.take n).getLast? = some c ∧ isBlank c = false

section

variable {s : Cursor} {m n : Nat}

theorem indifferent_passOn : Indifferent passOn () := fun _ _ _ _ => rfl

theorem Ending.toEdge (h : Ending s n) : Edge s n := by
  have := (indifferent_passOn.trivia s).trans h.edge
  rwa [Nat.add_sub_cancel' h.le] at this

theorem getLast?_take_add {cs : List Char} {c : Char} (h : ((cs.drop m).take n).getLast? = some c) :
    (cs.take (m + n)).getLast? = some c := by
  rw [List.take_add, List.getLast?_append, h]
  rfl

/-- Part of a gap may stand in front. -/
theorem Ending.behind (hg : triviaLength s.ahead = m + triviaLength (s.forward m).ahead)
    (h : Ending (s.forward m) n) : Ending s (m + n) := by
  obtain ⟨c, hl, hc⟩ := h.last
  rw [Cursor.forward_ahead] at hl
  have hle := h.le
  refine ⟨by omega, ?_, c, getLast?_take_add hl, hc⟩
  have he := h.edge
  rw [Cursor.forward_forward, ← hg] at he
  rwa [show m + n - triviaLength s.ahead = n - triviaLength (s.forward m).ahead by omega]

theorem Ending.of_item (hg : triviaLength s.ahead = 0) (he : Edge s m)
    (hl : ∃ c, (s.ahead.take m).getLast? = some c ∧ isBlank c = false)
    (h : n = 0 ∨ Ending (s.forward m) n) : Ending s (m + n) := by
  refine ⟨by omega, ?_, ?_⟩
  · rw [hg, Cursor.forward_zero, Nat.sub_zero]
    rcases h with rfl | h
    · exact he
    · exact he.trans h.toEdge
  · rcases h with rfl | h
    · exact hl
    · obtain ⟨c, hl, hc⟩ := h.last
      rw [Cursor.forward_ahead] at hl
      exact ⟨c, getLast?_take_add hl, hc⟩

theorem getLast?_string (hs : startsString s.previous s.ahead = true) (hl : stringLength? s.ahead = some n) :
    ∃ c, (s.ahead.take n).getLast? = some c ∧ isBlank c = false := by
  obtain ⟨d, content, text, rest, ha, rfl, hq, -, -⟩ := string_split hs hl
  have htake : s.ahead.take (d.opener.length + content.length + d.closer.length) =
      d.opener ++ (content ++ d.closer) := by
    rw [ha, ← List.append_assoc content, ← List.append_assoc, Nat.add_assoc, ← List.length_append,
      ← List.length_append, List.take_left]
  refine ⟨d.quote, ?_, ?_⟩
  · rw [htake, List.getLast?_append, List.getLast?_append, Delimiter.closer, List.getLast?_replicate,
      if_neg d.quotes_pos.ne']
    rfl
  · rcases isQuote_cases hq with hq | hq <;> rw [hq] <;> decide

end

/-- The first `n` characters end with white space and comments, behind an item of another kind or the start. -/
def EndsInGap (s : Cursor) (n : Nat) : Prop :=
  ∃ k ≤ n, (k = 0 ∨ Ending s k) ∧ Trivia ((s.ahead.drop k).take (n - k))

section

variable {s : Cursor} {m n : Nat}

theorem EndsInGap.of_item (h : EndsInGap (s.forward m) n) (hg : triviaLength s.ahead = 0) (he : Edge s m)
    (hl : ∃ c, (s.ahead.take m).getLast? = some c ∧ isBlank c = false) : EndsInGap s (m + n) := by
  obtain ⟨k, hk, hend, ht⟩ := h
  rw [Cursor.forward_ahead, List.drop_drop] at ht
  refine ⟨m + k, by omega, .inr (.of_item hg he hl hend), ?_⟩
  rwa [Nat.add_sub_add_left]

/-- Part of a gap may stand in front. -/
theorem EndsInGap.of_gap (h : EndsInGap (s.forward m) n)
    (hg : triviaLength s.ahead = m + triviaLength (s.forward m).ahead)
    (ht : Trivia ((s.forward m).ahead.take n) → Trivia (s.ahead.take (m + n))) : EndsInGap s (m + n) := by
  obtain ⟨k, hk, rfl | hend, hgap⟩ := h
  · exact ⟨0, Nat.zero_le _, .inl rfl, ht hgap⟩
  · rw [Cursor.forward_ahead, List.drop_drop] at hgap
    refine ⟨m + k, by omega, .inr (hend.behind hg), ?_⟩
    rwa [Nat.add_sub_add_left]

end

/-- In front of a comment outside literals stand white space and comments. -/
theorem Outside.endsInGap {s : Cursor} {n : Nat} (h : Outside s n) (hn : (s.ahead.drop n).head? = some '/') :
    EndsInGap s n := by
  -- By induction on the items in front: each is part of the last gap, or the gap is still to come.
  induction h with
  | here => exact ⟨0, le_rfl, .inl rfl, .nil⟩
  | @code s c cs n ha hi _ ih =>
    have hbehind := ih (by rwa [Cursor.forward_ahead, List.drop_drop])
    have hahead : (s.forward 1).ahead = cs := by rw [Cursor.forward_ahead, ha, List.drop_one, List.tail_cons]
    by_cases hc : isBlank c = true
    · refine hbehind.of_gap ?_ fun ht => ?_
      · rw [hahead, ha, triviaLength_blank hc]
      · rw [ha, Nat.add_comm, List.take_succ_cons]
        exact .fill hc (hahead ▸ ht)
    · refine hbehind.of_item ?_ (scans_code ha hi rfl) ⟨c, by rw [ha]; rfl, by simpa using hc⟩
      rw [ha, triviaLength, gapLength_cons (Item.at_eq_code_iff.mp hi).2, if_neg hc]
  | @string s m n hs hl _ ih =>
    have hbehind := ih (by rwa [Cursor.forward_ahead, List.drop_drop])
    refine hbehind.of_item ?_ (scans_string hs hl []).edge (getLast?_string hs hl)
    cases ha : s.ahead with
    | nil => rfl
    | cons c cs => exact filler_isBlank.solid_string (ha ▸ hs) cs
  | @comment s u rest n ha hc _ ih =>
    have hbehind := ih (by rwa [Cursor.forward_ahead, List.drop_drop])
    have hahead : (s.forward u.length).ahead = rest := by rw [Cursor.forward_ahead, ha, List.drop_left]
    rw [← List.drop_drop, ← Cursor.forward_ahead, hahead] at hn
    refine hbehind.of_gap ?_ fun ht => ?_
    · have hne : rest ≠ [] := by
        rintro rfl
        rw [List.drop_nil] at hn
        cases hn
      rw [hahead, ha, hc.triviaLength_append hne]
    · rw [List.take_add, ha, List.take_left, List.drop_left]
      exact hc.trivia_append hn (hahead ▸ ht)

/-- What a gap may be changed to without a change in front of it. -/
structure Refills (v w : List Char) : Prop where
  gap : ¬ Solid isBlank v
  head : ∀ c ∈ w.head?, isBlank c = true ∨ c = '/' ∧ v.head? = some '/'

section

variable {u v w behind : List Char} {previous c : Char} {k : Nat}

theorem Refills.not_isQuote (h : Refills v w) : ∀ c ∈ w.head?, isQuote c = false := by
  intro c hc
  rcases h.head c hc with hb | ⟨rfl, -⟩
  · exact (isBlank_breaks hb).2.2
  · decide

theorem Refills.startsComment (h : Refills v w) (hw : startsComment c (u ++ w)) : startsComment c (u ++ v) := by
  cases u with
  | cons d u => exact hw
  | nil =>
    refine ⟨hw.1, ?_⟩
    rcases hw.2 with hw | hw
    · rcases h.head _ hw with hb | ⟨-, hv⟩
      · exact absurd hb (by decide)
      · exact .inl hv
    · rcases h.head _ hw with hb | ⟨he, -⟩
      · exact absurd hb (by decide)
      · exact absurd he (by decide)

/-- A gap further in front ends where it did. -/
theorem Refills.triviaLength_eq (h : Refills v w) (hu : triviaLength (u ++ v) ≤ u.length) :
    triviaLength (u ++ w) = triviaLength (u ++ v) := by
  obtain ⟨g, rest, he, hl, hsolid, hgap⟩ := gap_split isBlank (u ++ v)
  rw [← triviaLength] at hl
  obtain ⟨r, rfl⟩ : g <+: u :=
    List.prefix_of_prefix_length_le (he ▸ List.prefix_append g rest) (List.prefix_append u v) (by omega)
  rw [List.append_assoc, List.append_cancel_left_eq] at he
  subst he
  cases r with
  | nil => exact absurd hsolid h.gap
  | cons d r =>
    have hsolid' : Solid isBlank (d :: (r ++ w)) := by
      rw [List.cons_append, solid_cons_iff] at hsolid
      refine solid_cons_iff.mpr ⟨hsolid.1, fun hd => not_or.mp fun hw => ?_⟩
      have hv := (h.startsComment ⟨hd, hw⟩).2
      exact hv.elim (hsolid.2 hd).1 (hsolid.2 hd).2
    rw [hl, List.append_assoc]
    exact (hgap (List.cons_ne_nil _ _)).gapLength_eq (by decide) hsolid'

theorem Refills.item_code (h : Refills v w) (hi : Item.at previous c (u ++ v) = .code) :
    Item.at previous c (u ++ w) = .code := by
  rw [Item.at_eq_code_iff, startsString_cons] at hi ⊢
  refine ⟨?_, fun hc => hi.2 (h.startsComment hc)⟩
  cases u with
  | cons d u => exact hi.1
  | nil =>
    have hquote : w.head?.any isQuote = false := by
      cases hw : w.head? with
      | none => rfl
      | some d => exact h.not_isQuote d hw
    rw [List.nil_append, (Bool.or_eq_false_iff.mp hi.1).1, hquote, Bool.and_false, Bool.false_and, Bool.false_or]

theorem Refills.item_inert (h : Refills v w) (hk : k ≤ u.length)
    (hi : Item.at previous c (u ++ v) = .inert k) : Item.at previous c (u ++ w) = .inert k := by
  have hne : ∀ x, 1 ≤ k → (u ++ x).head? = u.head? := by
    intro x hk'
    cases u with
    | nil => simp at hk; omega
    | cons d u => rfl
  rw [Item.at_eq_inert_iff] at hi ⊢
  rcases hi with ⟨hs, hl⟩ | ⟨hs, hc, hl⟩
  · have htwo := (two_le_of_stringLength? hs hl).1
    refine .inl ⟨?_, stringLength?_congr (u := c :: u) hs hl (by simpa using hk) h.not_isQuote⟩
    simpa only [startsString_cons, hne _ (by omega : 1 ≤ k)] using hs
  · have htwo := two_le_triviaLength hc
    refine .inr ⟨?_, ?_, ?_⟩
    · simpa only [startsString_cons, hne _ (by omega : 1 ≤ k)] using hs
    · simpa only [Expression.startsComment, hne _ (by omega : 1 ≤ k)] using hc
    · rw [← hl]
      refine h.triviaLength_eq (u := c :: u) ?_
      rw [List.cons_append, hl, List.length_cons]
      omega

variable {σ α : Type} {step : σ → Char → Except α σ} {state final : σ} {n : Nat}

/-- In front of a gap a scan comes by the same places. -/
theorem Scans.refill (h : Scans step state ⟨behind, u ++ v⟩ n final) (hn : n ≤ u.length)
    (hw : Refills v w) : Scans step state ⟨behind, u ++ w⟩ n final := by
  generalize hs : Cursor.mk behind (u ++ v) = s at h
  induction h generalizing behind u with
  | here => exact .here _ _
  | @code _ _ _ s c cs n ha hi hst _ ih =>
    subst hs
    cases u with
    | nil => simp at hn
    | cons d u =>
      obtain ⟨rfl, rfl⟩ := List.cons.inj ha
      exact .code rfl (hw.item_code hi) hst (ih (by simp at hn; omega) rfl)
  | @inert _ _ s c cs k n ha hi _ ih =>
    subst hs
    cases u with
    | nil => simp at hn
    | cons d u =>
      obtain ⟨rfl, rfl⟩ := List.cons.inj ha
      have hk : k + 1 ≤ (d :: u).length := by simp only [List.length_cons] at hn ⊢; omega
      refine .inert rfl (hw.item_inert (by simpa using hk) hi) ?_
      have hf := fun v => Cursor.forward_append_of_le hk behind v
      rw [hf]
      refine ih ?_ (hf v).symm
      rw [List.length_drop]
      omega

/-- A place in a gap that goes on has white space in front of it, and no comment. -/
theorem Scans.isBlank {t rest : List Char} (h : Scans step state ⟨behind, t ++ rest⟩ n final)
    (ht : Trivia t) (hr : ¬ Solid isBlank rest) (hn : n ≤ t.length) : ∀ c ∈ t.take n, isBlank c = true := by
  generalize hs : Cursor.mk behind (t ++ rest) = s at h
  induction h generalizing behind t with
  | here => simp
  | @code _ _ _ s c cs n ha hi _ _ ih =>
    subst hs
    cases ht with
    | nil => simp at hn
    | @fill d t hd ht =>
      rw [Nat.add_comm, List.take_succ_cons, List.forall_mem_cons]
      exact ⟨hd, ih ht (by simp at hn; omega) rfl⟩
    | line =>
      obtain ⟨rfl, rfl⟩ := List.cons.inj ha
      exact absurd ⟨rfl, .inl rfl⟩ (Item.at_eq_code_iff.mp hi).2
    | block =>
      obtain ⟨rfl, rfl⟩ := List.cons.inj ha
      exact absurd ⟨rfl, .inr rfl⟩ (Item.at_eq_code_iff.mp hi).2
  | @inert _ _ s c cs k n ha hi _ _ =>
    subst hs
    have hlong := ht.gapLength_append (by decide) rest
    have hpos : 0 < gapLength isBlank rest := Nat.pos_of_ne_zero hr
    rw [show t ++ rest = c :: cs from ha, ← triviaLength] at hlong
    rcases Item.at_eq_inert_iff.mp hi with ⟨hstr, -⟩ | ⟨-, -, hl⟩
    · have hsolid : triviaLength (c :: cs) = 0 := filler_isBlank.solid_string hstr cs
      omega
    · omega

end

end Expression

end WidgetJsx
