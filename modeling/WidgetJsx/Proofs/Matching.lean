import WidgetJsx.Proofs.Outside

/-! A source as a word of items: characters of code, and string literals and comments, of which no more counts
than that they end. An opening bracket is matched with the bracket at the end of the shortest word from there
in which all brackets are paired, and a source that is cut off behind that bracket has the same one. -/

namespace WidgetJsx.Expression

open Text (Cursor)

/-- A whole string literal or comment takes the next `n` characters. -/
inductive Inert (s : Cursor) : Nat → Prop
  | string {d : Delimiter} {content text rest : List Char} : isQuote d.quote = true →
      (d.raw = true → isNameChar s.previous = false) → d.Encodes content text → d.Apart content rest →
      s.ahead = d.opener ++ (content ++ (d.closer ++ rest)) →
      Inert s (d.opener.length + content.length + d.closer.length)
  | comment {u rest : List Char} : IsComment rest u → s.ahead = u ++ rest → Inert s u.length

inductive Lexeme
  | character (c : Char)
  | inert
deriving DecidableEq, Repr

/-- The next `n` characters, item by item. A string literal that is never closed is part of no word. -/
inductive Lexed : Cursor → List Lexeme → Nat → Prop
  | nil (s : Cursor) : Lexed s [] 0
  | character {s : Cursor} {c : Char} {cs : List Char} {word : List Lexeme} {n : Nat} :
      s.ahead = c :: cs → startsString s.previous (c :: cs) = false → ¬ startsComment c cs →
      Lexed (s.forward 1) word n → Lexed s (.character c :: word) (1 + n)
  | inert {s : Cursor} {word : List Lexeme} {k n : Nat} : Inert s k → Lexed (s.forward k) word n →
      Lexed s (.inert :: word) (k + n)

/-- Every bracket is paired with one of its kind. -/
inductive Nested : List Lexeme → Prop
  | nil : Nested []
  | inert {w : List Lexeme} : Nested w → Nested (.inert :: w)
  | other {c : Char} {w : List Lexeme} : closerOf? c = none → isCloser c = false → Nested w →
      Nested (.character c :: w)
  | brackets {c k : Char} {v w : List Lexeme} : closerOf? c = some k → Nested v → Nested w →
      Nested (.character c :: (v ++ .character k :: w))

/-- All brackets are paired in the word, which ends with one of them, and in no shorter part of it from its
start. -/
structure ShortestNested (word : List Lexeme) : Prop where
  nested : Nested word
  closed : ∃ front k, isCloser k = true ∧ word = front ++ [.character k]
  shortest : ∀ front, front <+: word → front ≠ [] → Nested front → front = word

section

variable {u u' rest rest' : List Char}

/-- A block comment that is closed does not go on. -/
theorem not_infix_close {body : List Char} (h : ¬ ['*', '/'] <:+: body) {v t : List Char} (ht : t ≠ []) :
    v ++ ['*', '/'] ++ t ≠ body ++ ['*', '/'] := by
  intro he
  -- What stands behind the first `*/` reaches back over the last one, one character after the other.
  obtain ⟨t, c, rfl⟩ := (List.eq_nil_or_concat' t).resolve_left ht
  have hlast : v ++ ['*', '/'] ++ t = body ++ ['*'] := by
    have := congrArg List.dropLast he
    simpa [← List.append_assoc] using this
  rcases List.eq_nil_or_concat' t with rfl | ⟨t, d, rfl⟩
  · simpa using congrArg List.getLast? hlast
  · refine h ⟨v, t, ?_⟩
    have := congrArg List.dropLast hlast
    simpa [← List.append_assoc] using this

/-- A comment ends where the first of what may end it stands. -/
theorem IsComment.unique (h : IsComment rest u) (h' : IsComment rest' u') (he : u ++ rest = u' ++ rest') :
    u = u' := by
  wlog hle : u.length ≤ u'.length generalizing u u' rest rest'
  · exact (this h' h he.symm (by omega)).symm
  obtain ⟨t, rfl⟩ := List.prefix_of_prefix_length_le ⟨rest, he⟩ (List.prefix_append u' rest') hle
  obtain rfl : rest = t ++ rest' := by simpa using he
  cases t with
  | nil => rw [List.append_nil]
  | cons c t =>
    generalize hu : u ++ c :: t = v at h'
    exfalso
    cases h with
    | line _ hl =>
      obtain rfl : c = '\n' := hl c rfl
      cases h' with
      | line hb' => simp [← (List.cons.inj (List.cons.inj hu).2).2] at hb'
      | block => simp at hu
    | @block body hb =>
      cases h' with
      | line => simp at hu
      | block hb' => exact not_infix_close hb' (List.cons_ne_nil c t) (by simpa using hu)

theorem IsComment.triviaLength_eq (h : IsComment rest u) :
    triviaLength (u ++ rest) = u.length + triviaLength rest := by
  cases rest with
  | cons c rest => exact h.triviaLength_append (List.cons_ne_nil c rest)
  | nil =>
    obtain ⟨blanks, back, he, -, ht⟩ := h.trails
    obtain ⟨rfl, rfl⟩ := List.append_eq_nil_iff.mp he.symm
    rw [List.append_nil] at ht ⊢
    exact ht.triviaLength_eq

end

variable {s : Cursor} {u v w word : List Lexeme} {c k : Char} {cs : List Char} {m n : Nat}

/-- What is ahead tells literals from comments. -/
theorem Inert.split (h : Inert s n) :
    startsString s.previous s.ahead = true ∧ stringLength? s.ahead = some n ∨
      startsString s.previous s.ahead = false ∧
        ∃ u rest, IsComment rest u ∧ s.ahead = u ++ rest ∧ u.length = n := by
  cases h with
  | string hq hr he ha hs =>
    rw [hs]
    exact .inl ⟨startsString_opener hq hr _, stringLength?_eq hq he ha⟩
  | @comment u rest hc hs =>
    obtain ⟨v, rfl, -⟩ := hc.startsComment
    refine .inr ⟨?_, _, rest, hc, hs, rfl⟩
    rw [hs]
    exact startsString_eq_false (by decide) (by decide) _ _

theorem Inert.pos (h : Inert s n) : 0 < n := by
  rcases h.split with ⟨hs, hl⟩ | ⟨-, u, rest, hc, -, rfl⟩
  · have := two_le_of_stringLength? hs hl
    omega
  · obtain ⟨v, rfl, -⟩ := hc.startsComment
    exact Nat.succ_pos _

theorem Inert.unique (h : Inert s m) (h' : Inert s n) : m = n := by
  rcases h.split with ⟨hs, hl⟩ | ⟨hs, u, rest, hc, ha, rfl⟩ <;>
    rcases h'.split with ⟨hs', hl'⟩ | ⟨hs', u', rest', hc', ha', rfl⟩
  · exact Option.some.inj (hl.symm.trans hl')
  · simp [hs] at hs'
  · simp [hs] at hs'
  · rw [hc.unique hc' (ha.symm.trans ha')]

/-- No character of code starts a literal or a comment. -/
theorem Inert.not_code (h : Inert s n) (ha : s.ahead = c :: cs)
    (hs : startsString s.previous (c :: cs) = false) : startsComment c cs := by
  rcases h.split with ⟨hs', -⟩ | ⟨-, u, rest, hc, hu, -⟩
  · rw [ha, hs] at hs'
    exact absurd hs' Bool.false_ne_true
  · obtain ⟨v, rfl, hv⟩ := hc.startsComment
    obtain ⟨rfl, rfl⟩ := List.cons.inj (ha.symm.trans hu)
    exact hv rest

theorem Lexed.append (h : Lexed s v m) (h' : Lexed (s.forward m) w n) : Lexed s (v ++ w) (m + n) := by
  induction h with
  | nil => simpa using h'
  | character ha hs hc _ ih =>
    rw [Nat.add_assoc]
    exact .character ha hs hc (ih (by simpa using h'))
  | inert hi _ ih =>
    rw [Nat.add_assoc]
    exact .inert hi (ih (by simpa using h'))

/-- So many characters of a source are one word only. -/
theorem Lexed.unique (h : Lexed s v m) (h' : Lexed s w n) (hn : m = n) : v = w := by
  induction h generalizing w n with
  | nil =>
    cases h' with
    | nil => rfl
    | character => omega
    | inert hi _ => have := hi.pos; omega
  | character ha hs hc _ ih =>
    cases h' with
    | nil => omega
    | character ha' _ _ h' =>
      obtain ⟨rfl, -⟩ := List.cons.inj (ha.symm.trans ha')
      rw [ih h' (by omega)]
    | inert hi _ => exact absurd (hi.not_code ha hs) hc
  | inert hi _ ih =>
    cases h' with
    | nil => have := hi.pos; omega
    | character ha hs hc _ => exact absurd (hi.not_code ha hs) hc
    | inert hi' h' =>
      obtain rfl := hi.unique hi'
      rw [ih h' (by omega)]

/-- What the matching scan makes of an item. -/
def Lexeme.step (awaited : List Char) : Lexeme → Except Bool (List Char)
  | .character c => matchStep awaited c
  | .inert => .ok awaited

section

variable {awaited next : List Char}

theorem foldlM_step_character (h : matchStep awaited c = .ok next) :
    (.character c :: w).foldlM Lexeme.step awaited = w.foldlM Lexeme.step next := by
  rw [List.foldlM_cons, Lexeme.step, h]
  rfl

theorem foldlM_step_append (h : v.foldlM Lexeme.step awaited = .ok next) :
    (v ++ w).foldlM Lexeme.step awaited = w.foldlM Lexeme.step next := by
  rw [List.foldlM_append, h]
  rfl

end

/-- The word of the next `n` characters takes the brackets that are awaited to others. -/
def Reads (awaited : List Char) (s : Cursor) (n : Nat) (final : List Char) : Prop :=
  ∃ word, Lexed s word n ∧ word.foldlM Lexeme.step awaited = .ok final

variable {awaited next final : List Char}

theorem Reads.character (ha : s.ahead = c :: cs) (hs : startsString s.previous (c :: cs) = false)
    (hc : ¬ startsComment c cs) (hstep : matchStep awaited c = .ok next)
    (h : Reads next (s.forward 1) n final) : Reads awaited s (1 + n) final := by
  obtain ⟨word, hw, hf⟩ := h
  exact ⟨_, .character ha hs hc hw, (foldlM_step_character hstep).trans hf⟩

theorem Reads.inert (hi : Inert s m) (h : Reads awaited (s.forward m) n final) :
    Reads awaited s (m + n) final := by
  obtain ⟨word, hw, hf⟩ := h
  exact ⟨_, .inert hi hw, hf⟩

theorem Reads.blank (hb : Text.isBlank c = true) (ha : s.ahead = c :: cs)
    (h : Reads awaited (s.forward 1) n final) : Reads awaited s (1 + n) final := by
  have hm := mark_of_isBlank hb
  exact .character ha (startsString_eq_false hm.not_quote hm.not_raw _ _) (fun hs => hm.not_slash hs.1)
    (matchStep_other hm.not_opener hm.not_closer awaited) h

theorem Trivia.reads {u rest : List Char} (h : Trivia u) (ha : s.ahead = u ++ rest)
    (hn : Reads awaited (s.forward u.length) n final) : Reads awaited s (u.length + n) final := by
  induction h generalizing s with
  | nil => simpa using hn
  | @fill c cs hc _ ih =>
    have hrest : (s.forward 1).ahead = cs ++ rest := by rw [Cursor.forward_ahead, ha]; rfl
    have hr := Reads.blank hc ha (ih hrest (by rwa [Cursor.forward_forward, Nat.add_comm]))
    rwa [← Nat.add_assoc, Nat.add_comm 1] at hr
  | @line body cs hb _ ih =>
    -- The line break behind the comment is a character of its own.
    have hcomment : IsComment ('\n' :: (cs ++ rest)) ('/' :: '/' :: body) := .line hb (by simp)
    have hi : Inert s (body.length + 2) := .comment hcomment (by simp [ha])
    have hbreak : (s.forward (body.length + 2)).ahead = '\n' :: (cs ++ rest) := by simp [ha]
    have hrest : ((s.forward (body.length + 2)).forward 1).ahead = cs ++ rest := by
      rw [Cursor.forward_ahead, hbreak]
      rfl
    have hl : ('/' :: '/' :: (body ++ '\n' :: cs)).length = body.length + 2 + (1 + cs.length) := by
      simp only [List.length_cons, List.length_append]
      omega
    rw [hl] at hn ⊢
    rw [Nat.add_assoc, Nat.add_assoc 1]
    refine .inert hi (.blank (by decide) hbreak (ih hrest ?_))
    rwa [Cursor.forward_forward, Cursor.forward_forward]
  | @block body cs hb _ ih =>
    have hcomment : IsComment (cs ++ rest) ('/' :: '*' :: (body ++ ['*', '/'])) := .block hb
    have ha' : s.ahead = '/' :: '*' :: (body ++ ['*', '/']) ++ (cs ++ rest) := by simp [ha]
    have hi := Inert.comment hcomment ha'
    have hrest : (s.forward ('/' :: '*' :: (body ++ ['*', '/'])).length).ahead = cs ++ rest := by
      rw [Cursor.forward_ahead, ha', List.drop_left]
    have hl : ('/' :: '*' :: (body ++ '*' :: '/' :: cs)).length =
        ('/' :: '*' :: (body ++ ['*', '/'])).length + cs.length := by
      simp only [List.length_cons, List.length_append, List.length_nil]
      omega
    rw [hl] at hn ⊢
    rw [Nat.add_assoc]
    refine .inert hi (ih hrest ?_)
    rwa [Cursor.forward_forward]

theorem Delimiter.not_isNameChar_of_raw {d : Delimiter} {previous : Char} {cs : List Char}
    (h : startsString previous (d.opener ++ cs) = true) (hq : isQuote d.quote = true) (hr : d.raw = true) :
    isNameChar previous = false := by
  simpa [Delimiter.opener_eq, hr, startsString, hq] using h

/-- A scan passes whole items, as long as it does not come to the end of the text. -/
theorem Scans.reads (h : Scans matchStep awaited s n final) (hne : (s.forward n).ahead ≠ []) :
    Reads awaited s n final := by
  induction h with
  | here => exact ⟨[], .nil _, rfl⟩
  | code ha hi hstep _ ih =>
    obtain ⟨hs, hc⟩ := Item.at_eq_code_iff.mp hi
    exact .character ha hs hc hstep (ih (by rwa [Cursor.forward_forward]))
  | @inert awaited final s c cs k n ha hi _ ih =>
    rw [← Cursor.forward_forward] at hne
    have hrest := ih hne
    rcases Item.at_eq_inert_iff.mp hi with ⟨hs, hl⟩ | ⟨-, -, hl⟩
    · obtain ⟨d, content, text, rest, he, hk, hq, henc, hapart⟩ := string_split hs hl
      rw [he] at hs ha
      rw [hk] at hrest ⊢
      exact .inert (.string hq (d.not_isNameChar_of_raw hs hq) henc hapart ha) hrest
    · -- More of the text follows, so the last comment of the gap is closed.
      rw [← ha] at hl
      have hlt : k + 1 < s.ahead.length := by
        rw [Cursor.forward_forward, Cursor.forward_ahead, ← List.length_pos_iff, List.length_drop] at hne
        omega
      have hgap : Trivia (s.ahead.take (triviaLength s.ahead)) := gap_take (by rwa [← triviaLength, hl])
      rw [hl] at hgap
      have hlength : (s.ahead.take (k + 1)).length = k + 1 := List.length_take_of_le hlt.le
      rw [← hlength] at hrest ⊢
      exact Trivia.reads hgap (List.take_append_drop (k + 1) s.ahead).symm hrest

/-- A gap that a text of items starts with is part of it. -/
theorem Lexed.triviaLength_le (h : Lexed s word n) (hr : Solid Text.isBlank (s.forward n).ahead) :
    triviaLength s.ahead ≤ n := by
  induction h with
  | nil s =>
    rw [Cursor.forward_zero] at hr
    exact Nat.le_of_eq hr
  | @character s c cs word n ha _ hc _ ih =>
    have hrest := ih (by rwa [Cursor.forward_forward])
    rw [Cursor.forward_ahead, ha, List.drop_one, List.tail_cons] at hrest
    rw [ha, triviaLength, gapLength_cons hc]
    split
    · exact Nat.add_le_add_left hrest 1
    · exact Nat.zero_le _
  | @inert s word k n hi _ ih =>
    have hrest := ih (by rwa [Cursor.forward_forward])
    rcases hi.split with ⟨hs, -⟩ | ⟨-, u, rest, hc, ha, rfl⟩
    · cases ha : s.ahead with
      | nil => exact Nat.zero_le _
      | cons c cs =>
        have hsolid : triviaLength (c :: cs) = 0 := filler_isBlank.solid_string (ha ▸ hs) cs
        omega
    · rw [Cursor.forward_ahead, ha, List.drop_left] at hrest
      rw [ha, hc.triviaLength_eq]
      exact Nat.add_le_add_left hrest _

/-- Whole items up to a place that is not in a gap are passed by a scan. -/
theorem Reads.scans (h : Reads awaited s n final) (hr : Solid Text.isBlank (s.forward n).ahead) :
    Scans matchStep awaited s n final := by
  obtain ⟨word, hw, hf⟩ := h
  induction hw generalizing awaited with
  | nil s =>
    obtain rfl : awaited = final := Except.ok.inj hf
    exact .here _ _
  | @character s c cs word n ha hs hc _ ih =>
    rw [List.foldlM_cons, Lexeme.step] at hf
    cases hstep : matchStep awaited c with
    | error a => simp [hstep, bind, Except.bind] at hf
    | ok next =>
      rw [hstep] at hf
      refine .code ha (Item.at_eq_code_iff.mpr ⟨hs, hc⟩) hstep (ih ?_ hf)
      rwa [Cursor.forward_forward]
  | @inert s word k n hi hw ih =>
    rw [← Cursor.forward_forward] at hr
    have hrest := ih hr hf
    rcases hi.split with ⟨hs, hl⟩ | ⟨-, u, rest, hc, ha, rfl⟩
    · exact (Scans.string hs hl).trans hrest
    · -- The scan passes the comment together with the gap behind it.
      have hgap := scans_trivia s awaited
      rw [ha, hc.triviaLength_eq] at hgap
      have hbehind := scans_trivia (s.forward u.length) awaited
      have hle := hw.triviaLength_le hr
      have hlast := hbehind.tail hrest hle
      rw [Cursor.forward_ahead, ha, List.drop_left] at hle hlast
      rw [Cursor.forward_forward] at hlast
      have hall := hgap.trans hlast
      rwa [Nat.add_assoc, Nat.add_sub_cancel' hle] at hall

theorem Nested.append (hv : Nested v) (hw : Nested w) : Nested (v ++ w) := by
  induction hv with
  | nil => exact hw
  | inert _ ih => exact .inert ih
  | other ho hc _ ih => exact .other ho hc ih
  | brackets hk hv _ _ ih =>
    rw [List.cons_append, List.append_assoc, List.cons_append]
    exact .brackets hk hv ih

theorem Nested.foldlM (h : Nested w) (hne : awaited ≠ []) : w.foldlM Lexeme.step awaited = .ok awaited := by
  induction h generalizing awaited with
  | nil => rfl
  | inert _ ih => exact ih hne
  | @other c w ho hc _ ih =>
    rw [foldlM_step_character (matchStep_other ho hc awaited)]
    exact ih hne
  | @brackets c k v w hk _ _ ihv ihw =>
    rw [foldlM_step_character (matchStep_opener hk awaited), foldlM_step_append (ihv (List.cons_ne_nil k awaited)),
      foldlM_step_character (matchStep_closer hk hne)]
    exact ihw hne

/-- A word that closes the given brackets, and pairs the others that it has. -/
def Closes : List Char → List Lexeme → Prop
  | [], w => Nested w
  | k :: inner, w => ∃ u v, w = u ++ .character k :: v ∧ Nested u ∧ Closes inner v

theorem Nested.closes_append (h : Nested u) {inner : List Char} (hw : Closes inner w) : Closes inner (u ++ w) := by
  cases inner with
  | nil => exact h.append hw
  | cons k inner =>
    obtain ⟨u', v, rfl, hu, hv⟩ := hw
    exact ⟨u ++ u', v, by simp, h.append hu, hv⟩

theorem closes_of_foldlM {inner : List Char} (h : w.foldlM Lexeme.step (inner ++ [k]) = .ok [k]) :
    Closes inner w := by
  induction w generalizing inner with
  | nil =>
    obtain rfl : inner = [] := by simpa using Except.ok.inj h
    exact Nested.nil
  | cons l w ih =>
    cases l with
    | inert => exact (Nested.inert .nil).closes_append (ih h)
    | character c =>
      rw [List.foldlM_cons, Lexeme.step] at h
      cases hstep : matchStep (inner ++ [k]) c with
      | error a => simp [hstep, bind, Except.bind] at h
      | ok next =>
        rw [hstep] at h
        rcases matchStep_eq_ok_iff.mp hstep with ⟨k', hk, rfl⟩ | ⟨ho, hc, rfl⟩ | ⟨-, -, hne, he⟩
        · obtain ⟨u, v, rfl, hu, hv⟩ : Closes (k' :: inner) w := ih h
          have hpair : Nested (.character c :: (u ++ [.character k'])) := .brackets hk hu .nil
          simpa using hpair.closes_append hv
        · exact (Nested.other ho hc .nil).closes_append (ih h)
        · cases inner with
          | nil => exact absurd (List.cons.inj he).2.symm hne
          | cons d inner =>
            obtain ⟨rfl, rfl⟩ := List.cons.inj he
            exact ⟨[], w, rfl, .nil, ih h⟩

theorem nested_of_foldlM (h : w.foldlM Lexeme.step [k] = .ok [k]) : Nested w :=
  show Closes [] w from closes_of_foldlM h

/-- A nested word closes no bracket that is open in front of it. -/
theorem Nested.not_prefix (hw : Nested w) (hv : Nested v) (hk : closerOf? c = some k) :
    ¬ v ++ [.character k] <+: w := by
  rintro ⟨u, rfl⟩
  have h := hw.foldlM (List.cons_ne_nil k [])
  have hstep : matchStep [k] k = .error true :=
    matchStep_eq_true_iff.mpr ⟨(isCloser_of_closerOf? hk).2, (isCloser_of_closerOf? hk).1, rfl⟩
  rw [List.append_assoc, foldlM_step_append (hv.foldlM (List.cons_ne_nil k [])), List.singleton_append,
    List.foldlM_cons, Lexeme.step, hstep] at h
  cases h

theorem Lexed.split (h : Lexed s (v ++ w) n) :
    ∃ m ≤ n, Lexed s v m ∧ Lexed (s.forward m) w (n - m) := by
  induction v generalizing s n with
  | nil => exact ⟨0, Nat.zero_le n, .nil s, by simpa using h⟩
  | cons l v ih =>
    cases h with
    | @character _ c cs _ n ha hs hc h =>
      obtain ⟨m, hm, hv, hw⟩ := ih h
      refine ⟨1 + m, by omega, .character ha hs hc hv, ?_⟩
      rwa [Cursor.forward_forward, show n - m = 1 + n - (1 + m) by omega] at hw
    | @inert _ _ k n hi h =>
      obtain ⟨m, hm, hv, hw⟩ := ih h
      refine ⟨k + m, by omega, .inert hi hv, ?_⟩
      rwa [Cursor.forward_forward, show n - m = k + n - (k + m) by omega] at hw

theorem lexed_bracket (hk : (closerOf? c).isSome ∨ isCloser c = true) (ha : s.ahead = c :: cs) :
    Lexed s [.character c] 1 := by
  obtain ⟨hs, hc⟩ := Item.at_eq_code_iff.mp (Item.at_bracket hk s.previous cs)
  exact .character ha hs hc (.nil _)

/-- A bracket, what it encloses and the bracket that closes it. -/
theorem shortestNested_iff (hk : closerOf? c = some k) :
    ShortestNested (.character c :: w) ↔ ∃ v, Nested v ∧ w = v ++ [.character k] := by
  constructor
  · rintro ⟨hn, -, hshort⟩
    cases hn with
    | other ho => simp [hk] at ho
    | @brackets _ k' v u hk' hv hu =>
      obtain rfl := Option.some.inj (hk.symm.trans hk')
      have hpair : Nested (.character c :: (v ++ [.character k])) := .brackets hk hv .nil
      have he := hshort _ ⟨u, by simp⟩ (List.cons_ne_nil _ _) hpair
      exact ⟨v, hv, (List.cons.inj he).2.symm⟩
  · rintro ⟨v, hv, rfl⟩
    refine ⟨.brackets hk hv .nil, ⟨.character c :: v, k, (isCloser_of_closerOf? hk).1, rfl⟩, ?_⟩
    intro front hfront hne hn
    cases hn with
    | nil => exact absurd rfl hne
    | inert _ => simp at hfront
    | other ho =>
      obtain rfl := Lexeme.character.inj (List.cons_prefix_cons.mp hfront).1
      simp [hk] at ho
    | @brackets c' k' v' u hk' hv' hu =>
      obtain ⟨he, hback⟩ := List.cons_prefix_cons.mp hfront
      obtain rfl := Lexeme.character.inj he
      obtain rfl := Option.some.inj (hk.symm.trans hk')
      rcases List.prefix_concat_iff.mp hback with he | hp
      · rw [he]
      · refine absurd (List.IsPrefix.trans ?_ hp) (hv.not_prefix hv' hk)
        exact ⟨u, by simp⟩

theorem solid_closer (hk : closerOf? c = some k) (cs : List Char) : Solid Text.isBlank (k :: cs) := by
  rcases closerOf?_cases hk with ⟨-, rfl⟩ | ⟨-, rfl⟩ | ⟨-, rfl⟩ <;>
    exact solid_cons (by decide) (by decide) cs

theorem Lexed.of_character {l : Nat} (h : Lexed s (.character c :: word) l) :
    ∃ cs n, s.ahead = c :: cs ∧ l = n + 1 ∧ Lexed (s.forward 1) word n := by
  cases h with
  | character ha _ _ h => exact ⟨_, _, ha, Nat.add_comm _ _, h⟩

theorem Lexed.eq_character (h : Lexed s word (n + 1)) (ha : s.ahead = c :: cs)
    (hi : Item.at s.previous c cs = .code) : ∃ w, word = .character c :: w := by
  obtain ⟨hs, hc⟩ := Item.at_eq_code_iff.mp hi
  generalize hn : n + 1 = l at h
  cases h with
  | nil => omega
  | inert hi _ => exact absurd (hi.not_code ha hs) hc
  | character ha' _ _ _ =>
    obtain ⟨rfl, -⟩ := List.cons.inj (ha'.symm.trans ha)
    exact ⟨_, rfl⟩

/-- Whatever stands behind it, the bracket is matched at the end of the shortest nested word. -/
theorem closing?_eq_some_iff_exists (ha : s.ahead = c :: cs) (hk : closerOf? c = some k) :
    closing? s.previous s.ahead = some n ↔ ∃ word, Lexed s word (n + 1) ∧ ShortestNested word := by
  have hopen := lexed_bracket (.inl (by rw [hk]; rfl)) ha
  constructor
  · intro h
    obtain ⟨hn, ⟨rest, hr⟩, hscans⟩ := scans_of_closing? ha hk h
    have hlast : ((s.forward 1).forward (n - 1)).ahead = k :: rest := by
      rw [Cursor.forward_forward, Nat.add_sub_cancel' hn, hr]
    have hmore : ((s.forward 1).forward (n - 1)).ahead ≠ [] := by
      rw [hlast]
      exact List.cons_ne_nil k rest
    obtain ⟨v, hv, hf⟩ := (hscans [k] (List.cons_ne_nil k [])).reads hmore
    have hclose := lexed_bracket (.inr (isCloser_of_closerOf? hk).1) hlast
    refine ⟨.character c :: (v ++ [.character k]), ?_,
      (shortestNested_iff hk).mpr ⟨v, nested_of_foldlM hf, rfl⟩⟩
    have hlexed := hopen.append (hv.append hclose)
    rwa [show 1 + (n - 1 + 1) = n + 1 by omega] at hlexed
  · rintro ⟨word, hw, hshort⟩
    obtain ⟨w, rfl⟩ := hw.eq_character ha (Item.at_bracket (.inl (by rw [hk]; rfl)) _ _)
    obtain ⟨v, hv, rfl⟩ := (shortestNested_iff hk).mp hshort
    obtain ⟨-, l, -, hl, hw⟩ := hw.of_character
    obtain rfl : n = l := Nat.succ.inj hl
    obtain ⟨m, hm, hinner, hlast⟩ := hw.split
    obtain ⟨rest, l, hr, hl, hnil⟩ := hlast.of_character
    obtain rfl : n = 1 + m := by cases hnil; omega
    rw [Cursor.forward_forward] at hr
    have hscans : Scans matchStep [k] (s.forward 1) m [k] := by
      refine Reads.scans ⟨v, hinner, hv.foldlM (List.cons_ne_nil k [])⟩ ?_
      rw [Cursor.forward_forward, hr]
      exact solid_closer hk rest
    exact closing?_eq_of_scans ha hk hscans hr

/-- A bracket that is matched in the first part of a source is matched with the same one in all of it. -/
theorem closing?_of_within (ha : s.ahead = c :: cs) (hk : closerOf? c = some k)
    (h : closing? (s.within m).previous (s.within m).ahead = some n) :
    n < m ∧ closing? s.previous s.ahead = some n := by
  obtain ⟨m, rfl⟩ : ∃ l, m = l + 1 := by
    cases m with
    | zero => simp [closing?, scanCode, scanCode.go] at h
    | succ m => exact ⟨m, rfl⟩
  have ha' : (s.within (m + 1)).ahead = c :: cs.take m := by rw [Cursor.within_ahead, ha]; rfl
  obtain ⟨hn, ⟨rest, hr⟩, -⟩ := scans_of_closing? ha' hk h
  obtain ⟨l, rfl⟩ : ∃ l, n = l + 1 := ⟨n - 1, by omega⟩
  rw [Cursor.forward_ahead, ha', List.drop_succ_cons, List.drop_take] at hr
  have hlt : l < m := by
    by_contra hle
    rw [Nat.sub_eq_zero_of_le (by omega), List.take_zero] at hr
    cases hr
  obtain ⟨more, hmore⟩ : ∃ more, cs.drop l = k :: more := by
    refine List.head?_eq_some_iff.mp ?_
    have := congrArg List.head? hr
    rwa [List.head?_take, if_neg (by omega)] at this
  have hcs : cs = cs.take l ++ k :: more := by rw [← hmore, List.take_append_drop]
  have hl : (cs.take l).length = l := by
    have := congrArg List.length hmore
    rw [List.length_drop, List.length_cons] at this
    exact List.length_take_of_le (by omega)
  -- What the bracket encloses is crossed on its own, so it is matched whatever follows.
  have hcut := closing?_within ha' hk h (Nat.lt_succ_self _)
  have htext : ((s.within (m + 1)).within (l + 2)).ahead = c :: (cs.take l ++ [k]) := by
    rw [Cursor.within_within (by omega), Cursor.within_ahead, ha, List.take_succ_cons, List.take_add_one,
      ← List.head?_drop, hmore]
    rfl
  rw [htext] at hcut
  have hcrosses : Crosses [c] (cs.take l) (k :: more) := crosses_of_closing? hk (by rw [hl]; exact hcut) [] more
  have hclose := hcrosses.closing? hk s.previous
  rw [← hcs, hl, ← ha] at hclose
  exact ⟨by omega, hclose⟩

/-- A bracket is matched in the first `m` characters of a source just when the shortest nested word from there ends
in them, so that the place where a source is cut off makes no difference but for what it cuts off. -/
theorem closing?_within_iff_shortestNested (ha : s.ahead = c :: cs) (hk : closerOf? c = some k) :
    (∀ m n, closing? (s.within m).previous (s.within m).ahead = some n ↔
      n < m ∧ ∃! word, Lexed s word (n + 1) ∧ ShortestNested word) ∧
    ∀ n, closing? s.previous s.ahead = some n →
      ∀ m, closing? (s.within m).previous (s.within m).ahead = if n < m then some n else none := by
  have hcut : ∀ m n, closing? (s.within m).previous (s.within m).ahead = some n ↔
      n < m ∧ closing? s.previous s.ahead = some n :=
    fun m n => ⟨closing?_of_within ha hk, fun h => closing?_within ha hk h.2 h.1⟩
  constructor
  · intro m n
    rw [hcut, closing?_eq_some_iff_exists ha hk]
    refine and_congr_right fun _ => ⟨?_, ExistsUnique.exists⟩
    rintro ⟨word, hw, hshort⟩
    exact ⟨word, ⟨hw, hshort⟩, fun _ h => h.1.unique hw rfl⟩
  · intro n hn m
    split
    next hlt => exact closing?_within ha hk hn hlt
    next hle =>
      rw [Option.eq_none_iff_forall_ne_some]
      intro l hl
      obtain ⟨hlt, hl⟩ := closing?_of_within ha hk hl
      obtain rfl := Option.some.inj (hn.symm.trans hl)
      exact hle hlt

theorem closing?_within_nested_parentheses :
    (Cursor.ofList "(a(b)c)tail".toList).ahead = '(' :: "a(b)c)tail".toList ∧ closerOf? '(' = some ')' ∧
      ∀ m, closing? '\n' ("(a(b)c)tail".toList.take m) = if 6 < m then some 6 else none :=
  ⟨rfl, rfl, (closing?_within_iff_shortestNested (s := Cursor.ofList "(a(b)c)tail".toList) rfl rfl).2 6
    (by decide)⟩

end WidgetJsx.Expression
