import WidgetJsx.Expression.Literal

/-! The grammar of string literals beside the functions that measure and read them. A literal may be
cut off from what follows it, and what follows a literal may change, unless a quote behind an empty
literal makes it the start of a triple one. -/

namespace WidgetJsx.Expression

namespace Delimiter

/-- The quotes at the end of a literal. -/
def closer (d : Delimiter) : List Char := List.replicate d.quotes d.quote

/-- The quotes at the start of a literal, and what makes it raw. -/
def opener (d : Delimiter) : List Char := (if d.raw then ['r'] else []) ++ d.closer

/-- `Encodes d content text`: between the delimiters, `content` stands for `text`. Outside raw
literals any character may have a backslash in front of it. The closing quotes come first at the end
of the content. -/
inductive Encodes (d : Delimiter) : List Char → List Char → Prop
  | nil : Encodes d [] []
  | plain {c : Char} {content text : List Char} : (c = '\\' → d.raw = true) →
      ¬ d.closer <+: c :: (content ++ d.closer) → Encodes d content text →
      Encodes d (c :: content) (c :: text)
  | escaped {c : Char} {content text : List Char} : d.raw = false → Encodes d content text →
      Encodes d ('\\' :: c :: content) (c :: text)

/-- The literals that stand for a text. -/
structure LiteralOf (d : Delimiter) (text literal : List Char) : Prop where
  isQuote : isQuote d.quote = true
  eq : ∃ content, literal = d.opener ++ content ++ d.closer ∧ d.Encodes content text

variable {d : Delimiter}

theorem length_closer (d : Delimiter) : d.closer.length = d.quotes := List.length_replicate

theorem length_opener (d : Delimiter) : d.opener.length = d.opening := by
  cases hr : d.raw <;> simp [opener, opening, hr, length_closer, Nat.add_comm]

theorem quotes_pos (d : Delimiter) : 0 < d.quotes := by
  unfold quotes
  split <;> omega

theorem closer_eq (d : Delimiter) :
    d.closer = d.quote :: (if d.triple then [d.quote, d.quote] else []) := by
  cases ht : d.triple <;> simp [closer, quotes, ht, List.replicate_succ]

theorem closes_iff (cs : List Char) : d.closes cs = true ↔ d.closer <+: cs := by
  rw [closer_eq]
  cases cs with
  | nil => simp [closes]
  | cons c cs =>
    rw [closes, List.cons_prefix_cons, Bool.and_eq_true, beq_iff_eq]
    constructor
    · rintro ⟨rfl, h⟩
      cases ht : d.triple <;> simp_all
    · rintro ⟨rfl, h⟩
      cases ht : d.triple <;> simp_all

theorem contentLength?_cons (c : Char) (cs : List Char) (n : Nat) :
    d.contentLength? n (c :: cs) =
      if d.closer <+: c :: cs then some n
      else if c = '\\' ∧ d.raw = false then
        match cs with
        | [] => none
        | _ :: cs => d.contentLength? (n + 2) cs
      else d.contentLength? (n + 1) cs := by
  rw [contentLength?.eq_def]
  by_cases h : d.closer <+: c :: cs
  · simp only [(closes_iff _).mpr h, if_true, if_pos h]
  · simp only [mt (closes_iff _).mp h, if_neg h]
    rfl

theorem closer_prefix_append_iff {u : List Char} (h : d.quotes ≤ u.length) (rest : List Char) :
    d.closer <+: u ++ rest ↔ d.closer <+: u := by
  constructor
  · intro hp
    exact List.prefix_of_prefix_length_le hp (List.prefix_append u rest) (by rwa [length_closer])
  · exact fun hp => hp.trans (List.prefix_append u rest)

theorem Encodes.contentLength?_eq (hq : Expression.isQuote d.quote = true) {content text : List Char}
    (h : d.Encodes content text) (n : Nat) (rest : List Char) :
    d.contentLength? n (content ++ (d.closer ++ rest)) = some (n + content.length) := by
  induction h generalizing n with
  | nil =>
    have hc : d.closer ++ rest = d.quote :: ((if d.triple then [d.quote, d.quote] else []) ++ rest) := by
      rw [closer_eq, List.cons_append]
    rw [List.nil_append, hc, contentLength?_cons, if_pos]
    · rfl
    · rw [← hc]
      exact List.prefix_append _ _
  | @plain c content text hc hp _ ih =>
    have hp' : ¬ d.closer <+: c :: (content ++ (d.closer ++ rest)) := by
      have := @closer_prefix_append_iff d (c :: (content ++ d.closer))
        (by simp only [List.length_cons, List.length_append, length_closer]; omega) rest
      rw [← this] at hp
      simpa using hp
    have hr : ¬ (c = '\\' ∧ d.raw = false) := by
      rintro ⟨he, hf⟩
      simp [hc he] at hf
    rw [List.cons_append, contentLength?_cons, if_neg hp', if_neg hr, ih, List.length_cons]
    congr 1
    omega
  | @escaped c content text hr _ ih =>
    have hp : ¬ d.closer <+: '\\' :: c :: (content ++ (d.closer ++ rest)) := by
      rw [closer_eq, List.cons_prefix_cons]
      rintro ⟨he, -⟩
      rw [he] at hq
      exact absurd hq (by decide)
    rw [List.cons_append, List.cons_append, contentLength?_cons, if_neg hp, if_pos ⟨rfl, hr⟩]
    simp only [ih, List.length_cons]
    congr 1
    omega

theorem contentLength?_split {n m : Nat} {cs : List Char} (h : d.contentLength? n cs = some m) :
    ∃ content text rest, cs = content ++ (d.closer ++ rest) ∧ m = n + content.length ∧
      d.Encodes content text := by
  fun_induction d.contentLength? n cs with
  | case1 n => simp at h
  | case2 n c cs hc =>
    obtain ⟨rest, hr⟩ := (closes_iff _).mp hc
    exact ⟨[], [], rest, hr.symm, by simpa using h.symm, .nil⟩
  | case3 n c hc hr => simp at h
  | case4 n c hr e cs hc ih =>
    obtain ⟨content, text, rest, rfl, hm, he⟩ := ih h
    obtain ⟨rfl, hr⟩ := hr
    refine ⟨'\\' :: e :: content, e :: text, rest, rfl, ?_, .escaped hr he⟩
    simp only [hm, List.length_cons]
    omega
  | case5 n c cs hc hr ih =>
    obtain ⟨content, text, rest, rfl, hm, he⟩ := ih h
    refine ⟨c :: content, c :: text, rest, rfl, ?_, .plain ?_ ?_ he⟩
    · simp only [hm, List.length_cons]
      omega
    · intro hb
      cases hd : d.raw with
      | true => rfl
      | false => exact absurd ⟨hb, hd⟩ hr
    · intro hp
      refine hc ((closes_iff _).mpr (hp.trans ⟨rest, ?_⟩))
      simp

theorem Encodes.unescapeFrom_eq (hr : d.raw = false) {content text : List Char}
    (h : d.Encodes content text) (before : List Char) :
    unescapeFrom before content = before.reverse ++ text := by
  induction h generalizing before with
  | nil => simp [unescapeFrom]
  | @plain c content text hc _ _ ih =>
    have hb : c ≠ '\\' := fun he => by simp [hc he] at hr
    have hu : unescapeFrom before (c :: content) = unescapeFrom (c :: before) content := by
      rw [unescapeFrom.eq_def]
      split <;> simp_all
    rw [hu, ih, List.reverse_cons, List.append_assoc, List.singleton_append]
  | escaped _ _ ih => rw [unescapeFrom, ih, List.reverse_cons, List.append_assoc, List.singleton_append]

theorem Encodes.eq_of_raw (hr : d.raw = true) {content text : List Char}
    (h : d.Encodes content text) : content = text := by
  induction h with
  | nil => rfl
  | plain _ _ _ ih => rw [ih]
  | escaped hf _ _ => simp [hr] at hf

theorem Encodes.text_eq {content text : List Char} (h : d.Encodes content text) :
    (if d.raw then content else unescape content) = text := by
  cases hr : d.raw with
  | true => rw [if_pos rfl, h.eq_of_raw hr]
  | false => rw [if_neg (by simp), unescape, h.unescapeFrom_eq hr, List.reverse_nil, List.nil_append]

/-- The quotes of an empty literal are not taken for those of a triple one. -/
def Apart (d : Delimiter) (content rest : List Char) : Prop :=
  d.triple = false → content = [] → rest.head? ≠ some d.quote

theorem ofList_quote {q : Char} (hq : Expression.isQuote q = true) (cs : List Char) :
    ofList (q :: cs) = ⟨q, [q, q].isPrefixOf cs, false⟩ := by
  have hr : q ≠ 'r' := by
    rintro rfl
    exact absurd hq (by decide)
  rw [ofList.eq_def]
  split <;> simp_all

theorem ofList_raw (q : Char) (cs : List Char) :
    ofList ('r' :: q :: cs) = ⟨q, [q, q].isPrefixOf cs, true⟩ := rfl

theorem opener_eq (d : Delimiter) : d.opener = (if d.raw then ['r'] else []) ++
    d.quote :: (if d.triple then [d.quote, d.quote] else []) := by
  rw [opener, closer_eq]

theorem ofList_opener (hq : Expression.isQuote d.quote = true) {cs : List Char}
    (h : d.triple = false → ¬ [d.quote, d.quote] <+: cs) : ofList (d.opener ++ cs) = d := by
  obtain ⟨q, triple, raw⟩ := d
  have hp : [q, q].isPrefixOf ((if triple then [q, q] else []) ++ cs) = triple := by
    cases triple with
    | true => simp
    | false => simpa [Bool.eq_false_iff] using h rfl
  cases raw with
  | true => simpa [opener_eq, ofList_raw] using hp
  | false => simpa [opener_eq, ofList_quote hq] using hp

theorem Encodes.not_quotes {content text rest : List Char} (hq : Expression.isQuote d.quote = true)
    (h : d.Encodes content text) (ha : d.Apart content rest) (ht : d.triple = false) :
    ¬ [d.quote, d.quote] <+: content ++ (d.closer ++ rest) := by
  have hc : d.closer = [d.quote] := by simp [closer_eq, ht]
  cases h with
  | nil =>
    rw [List.nil_append, hc, List.singleton_append, List.cons_prefix_cons]
    rintro ⟨-, ⟨rest', hr⟩⟩
    exact ha ht rfl (by rw [← hr]; rfl)
  | plain _ hp _ =>
    intro hpre
    refine hp ?_
    rw [hc, List.cons_prefix_cons]
    exact ⟨(List.cons_prefix_cons.mp hpre).1, List.nil_prefix⟩
  | escaped _ _ =>
    intro hpre
    rw [(List.cons_prefix_cons.mp hpre).1] at hq
    exact absurd hq (by decide)

end Delimiter

section

variable {d : Delimiter} {content text rest : List Char}

theorem stringLength?_eq (hq : isQuote d.quote = true) (h : d.Encodes content text)
    (ha : d.Apart content rest) : stringLength? (d.opener ++ (content ++ (d.closer ++ rest))) =
      some (d.opener.length + content.length + d.closer.length) := by
  rw [stringLength?, Delimiter.ofList_opener hq (h.not_quotes hq ha)]
  simp only [← d.length_opener, List.drop_left, h.contentLength?_eq hq, Option.map_some,
    Nat.zero_add, d.length_closer]

theorem stringText_eq (hq : isQuote d.quote = true) (h : d.Encodes content text)
    (ha : d.Apart content rest) :
    stringText (d.opener.length + content.length + d.closer.length)
      (d.opener ++ (content ++ (d.closer ++ rest))) = String.ofList text := by
  rw [stringText, Delimiter.ofList_opener hq (h.not_quotes hq ha)]
  simp only [← d.length_opener, List.drop_left, d.length_closer]
  rw [show d.opener.length + content.length + d.quotes - d.opener.length - d.quotes =
    content.length by omega, List.take_left, h.text_eq]

theorem startsString_of_isQuote {q : Char} (hq : isQuote q = true) (previous : Char)
    (cs : List Char) : startsString previous (q :: cs) = true := by
  have hr : q ≠ 'r' := by
    rintro rfl
    exact absurd hq (by decide)
  rw [startsString.eq_def]
  split <;> simp_all

theorem startsString_opener (hq : isQuote d.quote = true) {previous : Char}
    (hp : d.raw = true → isNameChar previous = false) (cs : List Char) :
    startsString previous (d.opener ++ cs) = true := by
  obtain ⟨q, triple, raw⟩ := d
  cases raw with
  | true => simpa [Delimiter.opener_eq, startsString, hp rfl] using hq
  | false =>
    simp only [Delimiter.opener_eq, Bool.false_eq_true, if_false, List.nil_append, List.cons_append]
    exact startsString_of_isQuote hq _ _

theorem startsString_cases {previous : Char} {cs : List Char} (h : startsString previous cs = true) :
    (∃ q ds, cs = 'r' :: q :: ds ∧ isQuote q = true ∧ isNameChar previous = false) ∨
      ∃ q ds, cs = q :: ds ∧ isQuote q = true := by
  unfold startsString at h
  split at h
  · rename_i q ds
    simp only [Bool.and_eq_true, Bool.not_eq_true'] at h
    exact .inl ⟨q, ds, rfl, h⟩
  · exact .inr ⟨_, _, rfl, h⟩
  · simp at h

theorem triple_split (q : Char) (cs : List Char) :
    ∃ more, cs = (if [q, q].isPrefixOf cs then [q, q] else []) ++ more ∧
      ([q, q].isPrefixOf cs = false → ¬ [q, q] <+: more) := by
  cases ht : [q, q].isPrefixOf cs with
  | true =>
    obtain ⟨more, rfl⟩ := List.isPrefixOf_iff_prefix.mp ht
    exact ⟨more, by simp, by simp⟩
  | false =>
    refine ⟨cs, by simp, fun _ hp => ?_⟩
    rw [List.isPrefixOf_iff_prefix.mpr hp] at ht
    exact absurd ht (by decide)

theorem ofList_split {previous : Char} {cs : List Char} (h : startsString previous cs = true) :
    ∃ more, cs = (Delimiter.ofList cs).opener ++ more ∧ isQuote (Delimiter.ofList cs).quote = true ∧
      ((Delimiter.ofList cs).triple = false →
        ¬ [(Delimiter.ofList cs).quote, (Delimiter.ofList cs).quote] <+: more) := by
  rcases startsString_cases h with ⟨q, ds, rfl, hq, -⟩ | ⟨q, ds, rfl, hq⟩
  · obtain ⟨more, he, hp⟩ := triple_split q ds
    refine ⟨more, ?_, hq, hp⟩
    simpa [Delimiter.ofList_raw, Delimiter.opener_eq] using he
  · obtain ⟨more, he, hp⟩ := triple_split q ds
    rw [Delimiter.ofList_quote hq]
    refine ⟨more, ?_, hq, hp⟩
    simpa [Delimiter.opener_eq] using he

/-- The reader of a string literal passes a whole literal. -/
theorem string_split {previous : Char} {cs : List Char} {n : Nat}
    (hs : startsString previous cs = true) (h : stringLength? cs = some n) :
    ∃ (d : Delimiter) (content text rest : List Char),
      cs = d.opener ++ (content ++ (d.closer ++ rest)) ∧
      n = d.opener.length + content.length + d.closer.length ∧
      isQuote d.quote = true ∧ d.Encodes content text ∧ d.Apart content rest := by
  obtain ⟨more, he, hq, hp⟩ := ofList_split hs
  generalize hd : Delimiter.ofList cs = d at he hq hp
  subst he
  simp only [stringLength?, hd, Option.map_eq_some_iff, ← d.length_opener, List.drop_left] at h
  obtain ⟨m, hm, rfl⟩ := h
  obtain ⟨content, text, rest, rfl, hc, henc⟩ := Delimiter.contentLength?_split hm
  refine ⟨d, content, text, rest, rfl, ?_, hq, henc, ?_⟩
  · rw [d.length_closer, hc, Nat.zero_add]
  · rintro ht rfl hr
    refine hp ht ?_
    obtain ⟨rest, rfl⟩ := List.head?_eq_some_iff.mp hr
    exact ⟨rest, by simp [Delimiter.closer_eq, ht]⟩

theorem two_le_of_stringLength? {previous : Char} {cs : List Char} {n : Nat}
    (hs : startsString previous cs = true) (h : stringLength? cs = some n) :
    2 ≤ n ∧ n ≤ cs.length := by
  obtain ⟨d, content, text, rest, rfl, rfl, -⟩ := string_split hs h
  have := d.quotes_pos
  have hc := d.length_closer
  have ho : d.closer.length ≤ d.opener.length := by simp [Delimiter.opener]
  simp only [List.length_append]
  omega

/-- A literal stays one whatever follows it, but for a quote right behind it. -/
theorem string_split_congr {previous : Char} {u v w : List Char} {n : Nat}
    (hs : startsString previous (u ++ v) = true) (h : stringLength? (u ++ v) = some n)
    (hn : n ≤ u.length) (hw : ∀ c ∈ w.head?, isQuote c = false) :
    ∃ (d : Delimiter) (content text more : List Char),
      u = d.opener ++ (content ++ (d.closer ++ more)) ∧
      n = d.opener.length + content.length + d.closer.length ∧
      isQuote d.quote = true ∧ d.Encodes content text ∧ d.Apart content (more ++ v) ∧
      d.Apart content (more ++ w) := by
  obtain ⟨d, content, text, rest, he, rfl, hq, henc, ha⟩ := string_split hs h
  have hl : (d.opener ++ (content ++ d.closer)).length ≤ u.length := by
    simpa [Nat.add_assoc] using hn
  have hp : d.opener ++ (content ++ d.closer) <+: u ++ v := ⟨rest, by simpa using he.symm⟩
  obtain ⟨more, rfl⟩ := List.prefix_of_prefix_length_le hp (List.prefix_append u v) hl
  have hr : more ++ v = rest := by simpa using he
  refine ⟨d, content, text, more, by simp, rfl, hq, henc, hr ▸ ha, fun ht hc hm => ?_⟩
  cases more with
  | nil => simpa [hq] using hw d.quote hm
  | cons c more => exact ha ht hc (by rw [← hr]; exact hm)

/-- A literal is measured alike whatever follows it, but for a quote right behind it. -/
theorem stringLength?_congr {previous : Char} {u v w : List Char} {n : Nat}
    (hs : startsString previous (u ++ v) = true) (h : stringLength? (u ++ v) = some n)
    (hn : n ≤ u.length) (hw : ∀ c ∈ w.head?, isQuote c = false) : stringLength? (u ++ w) = some n := by
  obtain ⟨d, content, text, more, rfl, rfl, hq, henc, -, ha⟩ := string_split_congr hs h hn hw
  simpa using stringLength?_eq hq henc ha

theorem stringText_congr {previous : Char} {u v w : List Char} {n : Nat}
    (hs : startsString previous (u ++ v) = true) (h : stringLength? (u ++ v) = some n)
    (hn : n ≤ u.length) (hw : ∀ c ∈ w.head?, isQuote c = false) :
    stringText n (u ++ w) = stringText n (u ++ v) := by
  obtain ⟨d, content, text, more, rfl, rfl, hq, henc, hv, hw⟩ := string_split_congr hs h hn hw
  have hside : ∀ side, d.Apart content (more ++ side) →
      stringText (d.opener.length + content.length + d.closer.length)
        (d.opener ++ (content ++ (d.closer ++ more)) ++ side) = String.ofList text := by
    intro side ha
    simpa using stringText_eq hq henc ha
  rw [hside w hw, hside v hv]

end

end WidgetJsx.Expression
