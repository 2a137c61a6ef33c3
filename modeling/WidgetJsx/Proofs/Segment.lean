import WidgetJsx.Proofs.Balanced

/-! The pieces of an argument list between its commas, and the arguments that are read from them. A
reader takes one literal, path, call or list and looks for the next argument right behind it, so a
piece gives one argument where its value takes all of it; raw text always does. -/

namespace WidgetJsx

open Expression Text

/-- The text up to the next comma outside brackets, string literals and comments. -/
def pieceText (p : Cursor) : List Char := p.ahead.take (rawLength p.previous p.ahead)

/-- The places where the pieces of an argument list begin. -/
def pieces (s : Cursor) : List Cursor :=
  match _h : s.ahead.drop (rawLength s.previous s.ahead) with
  | [] => [s]
  | _ :: _ => s :: pieces (s.forward (rawLength s.previous s.ahead + 1))
termination_by s.ahead.length
decreasing_by
  have hl := congrArg List.length _h
  simp at hl ⊢
  omega

/-- The place behind the white space and the comments at the head of a piece. -/
def pieceStart (p : Cursor) : Cursor := p.forward (triviaLength p.ahead)

/-- The place behind the key of a piece, if it has one. -/
def pieceValue (p : Cursor) : Cursor := (pieceStart p).forward (entryLead (pieceStart p)).2

/-- More than white space and comments stands in a piece. -/
def Filled (p : Cursor) : Prop := triviaLength (pieceText p) < (pieceText p).length

instance : DecidablePred Filled := fun _ => Nat.decLt _ _

/-- With `n` characters read, no more than white space and comments are left of a piece. -/
def EndsPiece (p : Cursor) (n : Nat) : Prop :=
  n + triviaLength ((pieceStart p).forward n).ahead = (pieceText (pieceStart p)).length

/-- A literal, path, call or list that a piece begins with takes all of it. -/
def Single (p : Cursor) : Prop :=
  ∀ form n, entryForm (pieceStart p) = .ok (form, n) → (∀ text, form ≠ .raw text) → EndsPiece p n

section

variable {s : Cursor}

theorem length_pieceText (p : Cursor) : (pieceText p).length = rawLength p.previous p.ahead := by
  rw [pieceText, List.length_take, Nat.min_eq_left (rawLength_le p)]

theorem pieceText_of_scans {n : Nat} (h : Scans rawStep 0 s n 0) :
    pieceText (s.forward n) = (pieceText s).drop n := by
  rw [pieceText, pieceText, List.drop_take, rawLength_of_scans h, Nat.add_sub_cancel_left,
    Cursor.forward_ahead]

theorem scans_pieceStart (p : Cursor) : Scans rawStep 0 p (triviaLength p.ahead) 0 :=
  (indifferent_rawStep 0).trivia p

theorem rawLength_pieceStart (p : Cursor) :
    rawLength p.previous p.ahead = triviaLength p.ahead + (pieceText (pieceStart p)).length := by
  rw [length_pieceText, pieceStart, ← rawLength_of_scans (scans_pieceStart p)]

theorem filled_iff (p : Cursor) : Filled p ↔ 0 < (pieceText (pieceStart p)).length := by
  have hlen := rawLength_pieceStart p
  have htrivia : triviaLength (pieceText p) = triviaLength p.ahead :=
    gapLength_take (by rw [← triviaLength]; omega)
  rw [Filled, htrivia, length_pieceText]
  omega

/-- Raw text is all that is left of a piece behind the key, and behind a keyword if one is passed. -/
theorem raw_of_entryForm {p : Cursor} {text : String} {n : Nat}
    (h : entryForm (pieceStart p) = .ok (.raw text, n)) : EndsPiece p n ∧
      ∃ k, (k = 0 ∨ k = keywordLength (pieceValue p).ahead) ∧
        text = String.ofList (trim ((pieceText (pieceValue p)).drop k)) := by
  obtain ⟨⟨form, j⟩, hf, h⟩ := exists_of_bind_eq_ok h
  cases h
  have hlead := (indifferent_rawStep 0).entryLead (pieceStart p)
  cases formAt_of_readForm hf with
  | @raw k hk =>
    have hscan : Scans rawStep 0 (pieceValue p) k 0 := by
      rcases hk with rfl | rfl
      · exact .here _ _
      · exact (indifferent_rawStep 0).keyword _
    have hlen := rawLength_of_scans (hlead.trans hscan)
    rw [← Cursor.forward_forward, ← pieceValue, Nat.add_assoc] at hlen
    refine ⟨?_, k, hk, ?_⟩
    · have hbehind : triviaLength ((pieceStart p).forward _).ahead = 0 := solid_behind_raw (pieceStart p)
      rw [EndsPiece, length_pieceText, ← pieceValue, ← hlen, hbehind, Nat.add_zero]
    · rw [← pieceText_of_scans hscan]
      rfl

/-- The one argument that a piece is read as. -/
structure Gives (descend : Call → Except Fault Widget) (p : Cursor) (entry : Entry) : Prop where
  key : entry.key? = (readKey? (pieceStart p)).map Prod.fst
  value : ∃ form n, readForm (pieceValue p) = .ok (form, n) ∧
    readArgument descend form = .ok entry.value
  raw : ∀ text, entry.value = .raw text → ∃ k, (k = 0 ∨ k = keywordLength (pieceValue p).ahead) ∧
    text = String.ofList (trim ((pieceText (pieceValue p)).drop k))

theorem pieces_last (h : rawLength s.previous s.ahead = s.ahead.length) : pieces s = [s] := by
  rw [pieces]
  split
  · rfl
  · rename_i hc
    rw [h, List.drop_length] at hc
    cases hc

theorem pieces_more (h : (s.forward (rawLength s.previous s.ahead)).next? = some ',') :
    pieces s = s :: pieces (s.forward (rawLength s.previous s.ahead + 1)) := by
  obtain ⟨cs, ha⟩ := List.head?_eq_some_iff.mp h
  rw [Cursor.forward_ahead] at ha
  rw [pieces]
  split
  · rename_i hc
    rw [ha] at hc
    cases hc
  · rfl

theorem separated_of_filled (h : Filled s) : separated s = pieceStart s := by
  have hne := (filled_iff s).mp h
  have hsolid : Solid isBlank (pieceStart s).ahead := by
    rw [pieceStart, Cursor.forward_ahead]
    exact solid_drop s.ahead
  have hseparators : separatorsLength (pieceStart s).ahead = 0 := by
    cases ha : (pieceStart s).ahead with
    | nil => rfl
    | cons c cs =>
      rw [ha, solid_cons_iff] at hsolid
      have hcomma : c ≠ ',' := by
        rintro rfl
        have hzero := rawLength_comma (show (pieceStart s).next? = some ',' by rw [Cursor.next?, ha]; rfl)
        rw [← length_pieceText] at hzero
        omega
      exact solid_cons_iff.mpr ⟨by simp [hsolid.1, hcomma], hsolid.2⟩
  rw [← separated_forward_trivia, ← pieceStart, separated, hseparators, Cursor.forward_zero]

theorem separated_of_not_filled (h : ¬ Filled s) :
    separated s = separated (s.forward (rawLength s.previous s.ahead)) := by
  have hzero : (pieceText (pieceStart s)).length = 0 := by
    rw [filled_iff] at h
    omega
  rw [rawLength_pieceStart, hzero, Nat.add_zero, separated_forward_trivia]

end

section

variable {descend : Call → Except Fault Widget} {s : Cursor} {found as : List Entry}

theorem gives_of_readEntry {p : Cursor} {entry : Entry} {n : Nat} (hw : Single p)
    (h : readEntry descend (pieceStart p) = .ok (entry, n)) : Gives descend p entry ∧ EndsPiece p n := by
  rw [readEntry_bind] at h
  obtain ⟨⟨form, m⟩, hf, h⟩ := exists_of_bind_eq_ok h
  obtain ⟨value, hv, h⟩ := exists_of_bind_eq_ok h
  cases h
  obtain ⟨⟨form', j⟩, hform, he⟩ := exists_of_bind_eq_ok hf
  cases he
  have hkey : (entryLead (pieceStart p)).1 = (readKey? (pieceStart p)).map Prod.fst := by
    unfold entryLead
    cases readKey? (pieceStart p) <;> rfl
  by_cases hraw : ∃ text, form = .raw text
  · obtain ⟨text, rfl⟩ := hraw
    obtain ⟨hends, hk⟩ := raw_of_entryForm hf
    cases hv
    refine ⟨⟨hkey, ⟨_, j, hform, rfl⟩, ?_⟩, hends⟩
    rintro _ ⟨rfl⟩
    exact hk
  · refine ⟨⟨hkey, ⟨form, j, hform, hv⟩, ?_⟩, hw form _ hf fun text he => hraw ⟨text, he⟩⟩
    rintro text rfl
    exact absurd ⟨text, form_of_readArgument hv rfl⟩ hraw

theorem separated_of_endsPiece {n : Nat} (h : EndsPiece s n) :
    separated ((pieceStart s).forward n) = separated (s.forward (rawLength s.previous s.ahead)) := by
  rw [EndsPiece] at h
  rw [← separated_forward_trivia, rawLength_pieceStart, ← h, Cursor.forward_forward,
    ← Cursor.forward_forward s]
  rfl

theorem pos_of_endsPiece {n : Nat} (hf : Filled s) (h : EndsPiece s n) : 0 < n := by
  have hpos := (filled_iff s).mp hf
  apply Nat.pos_of_ne_zero
  rintro rfl
  have hsolid : triviaLength ((pieceStart s).forward 0).ahead = 0 := by
    rw [Cursor.forward_zero, pieceStart, Cursor.forward_ahead]
    exact solid_drop s.ahead
  rw [EndsPiece, hsolid] at h
  omega

/-- Behind its first piece an argument list ends, or goes on with the pieces behind a comma. -/
theorem pieces_cases (hl : Level s) :
    (pieces s = [s] ∧ (separated (s.forward (rawLength s.previous s.ahead))).ahead = []) ∨
      ∃ t, pieces s = s :: pieces t ∧ Level t ∧
        separated t = separated (s.forward (rawLength s.previous s.ahead)) := by
  obtain ⟨hscan, hlast | hcomma⟩ := hl.scans_raw (List.cons_ne_nil ')' [])
  · refine .inl ⟨pieces_last hlast, ?_⟩
    rw [separated, Cursor.forward_ahead, Cursor.forward_ahead, hlast, List.drop_length, List.drop_nil]
  · obtain ⟨cs, ha⟩ := List.head?_eq_some_iff.mp hcomma
    refine .inr ⟨_, pieces_more hcomma, ?_, ?_⟩
    · rw [← Cursor.forward_forward]
      exact (hl.forward hscan).forward ((mark_of_mem (by simp)).scans ha [')'])
    · rw [← Cursor.forward_forward]
      exact separated_forward_comma hcomma

/-- Of a piece that is more than a gap the argument is read first, and then what stands behind the piece. -/
theorem gives_of_filled (hf : Filled s) (hw : Single s) (h : readAll (readEntry descend) found s = .ok as) :
    ∃ entry, Gives descend s entry ∧ readAll (readEntry descend) (entry :: found)
      (s.forward (rawLength s.previous s.ahead)) = .ok as := by
  have hstart := separated_of_filled hf
  have hne : (separated s).ahead ≠ [] := by
    rw [hstart]
    intro hnil
    have hpos := (filled_iff s).mp hf
    rw [pieceText, hnil, List.take_nil] at hpos
    exact absurd hpos (Nat.lt_irrefl 0)
  cases hi : readEntry descend (pieceStart s) with
  | error fault =>
    rw [readAll_error hne (hstart ▸ hi)] at h
    cases h
  | ok outcome =>
    obtain ⟨entry, n⟩ := outcome
    obtain ⟨hgives, hends⟩ := gives_of_readEntry hw hi
    rw [readAll_step hne (hstart ▸ hi), hstart, Nat.max_eq_right (pos_of_endsPiece hf hends),
      readAll_congr (separated_of_endsPiece hends)] at h
    exact ⟨entry, hgives, h⟩

/-- One argument is read from each piece that is more than a gap, in the order of the pieces. -/
theorem gives_of_readEntries (hl : Level s) (hw : ∀ p ∈ pieces s, Single p)
    (h : readAll (readEntry descend) found s = .ok as) :
    ∃ entries, as = found.reverse ++ entries ∧
      List.Forall₂ (Gives descend) ((pieces s).filter Filled) entries := by
  induction hp : pieces s generalizing s found with
  | nil =>
    rcases pieces_cases hl with ⟨hone, -⟩ | ⟨t, hmore, -⟩
    · cases hp.symm.trans hone
    · cases hp.symm.trans hmore
  | cons p ps ih =>
    -- what is found behind the piece, once the piece itself is passed
    obtain ⟨rfl, hbehind⟩ : p = s ∧ ∀ {found}, readAll (readEntry descend) found
          (s.forward (rawLength s.previous s.ahead)) = .ok as →
        ∃ entries, as = found.reverse ++ entries ∧
          List.Forall₂ (Gives descend) (ps.filter Filled) entries := by
      rcases pieces_cases hl with ⟨hone, hend⟩ | ⟨t, hmore, ht, hsame⟩
      · obtain ⟨rfl, rfl⟩ := List.cons.inj (hp.symm.trans hone)
        refine ⟨rfl, fun hr => ?_⟩
        rw [readAll_end hend] at hr
        cases hr
        exact ⟨[], (List.append_nil _).symm, .nil⟩
      · obtain ⟨rfl, rfl⟩ := List.cons.inj (hp.symm.trans hmore)
        refine ⟨rfl, fun hr => ?_⟩
        rw [← readAll_congr hsame] at hr
        exact ih ht (fun q hq => hw q (hp ▸ List.mem_cons_of_mem _ hq)) hr rfl
    by_cases hf : Filled p
    · obtain ⟨entry, hgives, hr⟩ := gives_of_filled hf (hw p (hp ▸ List.mem_cons_self)) h
      obtain ⟨entries, rfl, hrest⟩ := hbehind hr
      refine ⟨entry :: entries, by simp, ?_⟩
      rw [List.filter_cons_of_pos (by simpa using hf)]
      exact .cons hgives hrest
    · rw [readAll_congr (separated_of_not_filled hf)] at h
      rw [List.filter_cons_of_neg (by simpa using hf)]
      exact hbehind h

theorem gives_positional {ps : List Cursor} {entries : List Entry}
    (h : List.Forall₂ (Gives descend) ps entries) :
    List.Forall₂ (fun p value => Gives descend p ⟨none, value⟩)
      (ps.filter fun p => (readKey? (pieceStart p)).isNone) (Entry.positional entries) := by
  induction h with
  | nil => exact .nil
  | @cons p entry ps entries hg _ ih =>
    obtain ⟨key?, value⟩ := entry
    have hkey : key? = (readKey? (pieceStart p)).map Prod.fst := hg.key
    cases hk : readKey? (pieceStart p) with
    | none =>
      rw [hk] at hkey
      subst hkey
      rw [List.filter_cons_of_pos (by simp [hk])]
      exact .cons hg ih
    | some found =>
      rw [hk] at hkey
      subst hkey
      rw [List.filter_cons_of_neg (by simp [hk])]
      exact ih

end

/-- Where each literal, path, call and list takes the whole of its piece, a construction has one argument
for each piece that is more than a gap, in the order of the pieces. -/
theorem Construction.read_pieces {source : String} {c : Construction} {call : Call} {rest : Cursor}
    (h : Construction.read source = .ok c)
    (hc : readCall (.ofList source.toList) = .ok (call, rest))
    (hw : ∀ p ∈ pieces call.arguments, Single p) :
    ∃ entries, List.Forall₂ (Gives (readWidget Limits.standard.depth Limits.standard.depth))
        ((pieces call.arguments).filter Filled) entries ∧
      c = ⟨call.name, Entry.positional entries, Entry.named entries⟩ ∧
      List.Forall₂ (fun p value =>
          Gives (readWidget Limits.standard.depth Limits.standard.depth) p ⟨none, value⟩)
        (((pieces call.arguments).filter Filled).filter fun p => (readKey? (pieceStart p)).isNone)
        c.positional := by
  obtain ⟨-, call', rest', entries, hc', hr, -, rfl⟩ := read_eq_ok_iff.mp h
  obtain ⟨rfl, -⟩ := Prod.mk.inj (Except.ok.inj (hc.symm.trans hc'))
  obtain ⟨n, hcall, -⟩ := readCall_eq_ok_iff.mp hc
  obtain ⟨entries, rfl, hgives⟩ := gives_of_readEntries hcall.level hw hr
  exact ⟨entries, hgives, rfl, gives_positional hgives⟩

set_option maxRecDepth 4000 in
theorem Construction.read_pieces_size :
    ∃ entries, List.Forall₂ (Gives (readWidget Limits.standard.depth Limits.standard.depth))
        ((pieces ⟨"(eziS".toList, "1, b: 2".toList⟩).filter Filled) entries ∧
      (⟨"Size", [.number "1"], ⟨[("b", .number "2")]⟩⟩ : Construction) =
        ⟨"Size", Entry.positional entries, Entry.named entries⟩ ∧
      List.Forall₂ (fun p value =>
          Gives (readWidget Limits.standard.depth Limits.standard.depth) p ⟨none, value⟩)
        (((pieces ⟨"(eziS".toList, "1, b: 2".toList⟩).filter Filled).filter fun p =>
          (readKey? (pieceStart p)).isNone)
        [.number "1"] := by
  have h : Construction.read "Size(1, b: 2)" = .ok ⟨"Size", [.number "1"], ⟨[("b", .number "2")]⟩⟩ := by
    cbv
  have hc : readCall (.ofList "Size(1, b: 2)".toList) = .ok
      (⟨"Size", ⟨"(eziS".toList, "1, b: 2".toList⟩⟩, ⟨")2 :b ,1(eziS".toList, []⟩) := by cbv
  have hpieces : pieces ⟨"(eziS".toList, "1, b: 2".toList⟩ =
      [⟨"(eziS".toList, "1, b: 2".toList⟩, ⟨",1(eziS".toList, " b: 2".toList⟩] := by cbv
  have hfirst : entryForm (pieceStart ⟨"(eziS".toList, "1, b: 2".toList⟩) = .ok (.number "1", 1) := by
    cbv
  have hsecond : entryForm (pieceStart ⟨",1(eziS".toList, " b: 2".toList⟩) = .ok (.number "2", 4) := by
    cbv
  have hends : EndsPiece ⟨"(eziS".toList, "1, b: 2".toList⟩ 1 ∧
      EndsPiece ⟨",1(eziS".toList, " b: 2".toList⟩ 4 := by
    unfold EndsPiece
    cbv
  refine Construction.read_pieces h hc fun p hp form n hf _ => ?_
  rw [hpieces, List.mem_cons, List.mem_singleton] at hp
  rcases hp with rfl | rfl
  · obtain ⟨rfl, rfl⟩ := Prod.mk.inj (Except.ok.inj (hfirst.symm.trans hf))
    exact hends.1
  · obtain ⟨rfl, rfl⟩ := Prod.mk.inj (Except.ok.inj (hsecond.symm.trans hf))
    exact hends.2

/-- A number in front of an operator is an argument of its own, and the rest of the piece is another. -/
theorem Construction.read_product :
    readCall (.ofList "EdgeInsets.all(10 * x)".toList) = .ok
        (⟨"EdgeInsets.all", ⟨"(lla.stesnIegdE".toList, "10 * x".toList⟩⟩,
          ⟨")x * 01(lla.stesnIegdE".toList, []⟩) ∧
      pieces ⟨"(lla.stesnIegdE".toList, "10 * x".toList⟩ =
        [⟨"(lla.stesnIegdE".toList, "10 * x".toList⟩] ∧
      Construction.read "EdgeInsets.all(10 * x)" =
        .ok ⟨"EdgeInsets.all", [.number "10", .raw "* x"], ⟨[]⟩⟩ := by
  refine ⟨?_, ?_, ?_⟩
  · cbv
  · cbv
  · cbv

end WidgetJsx
