import Mathlib
import WidgetJsx.Proofs.Shift

/-! A source text set lower on the page. White space and comments in front of a text make no difference
to what is read; a fault moves with the text, so that blank lines move it down by as many lines and
leave its column. The one fault that stays is that of a dotted name: it is reported at the start of the
text, wherever the name stands. -/

namespace WidgetJsx

open Expression Text

section

variable {earlier : List Char} {s : Cursor}

/-- The character before the start of a text is not looked at: a name lies between it and the first
bracket. -/
theorem readCall_after (earlier : List Char) (s : Cursor) : readCall (s.after earlier) =
    shifted earlier (fun (call, rest) => (call.after earlier, rest.after earlier)) (readCall s) := by
  simp only [readCall, Cursor.after_ahead, Cursor.after_forward, Cursor.after_next?,
    Cursor.after_text, Cursor.after_position]
  split
  · rfl
  rename_i hp
  have hname (t : Cursor) (ht : pathLength t.ahead ≠ 0) :
      (t.forward (pathLength t.ahead)).Settled earlier := by
    refine Cursor.settled_of_behind fun hnil => ht ?_
    rw [Cursor.forward_behind, List.append_eq_nil_iff, List.reverse_eq_nil_iff,
      List.take_eq_nil_iff] at hnil
    rcases hnil.1 with hz | hz
    · exact hz
    · rw [hz]
      rfl
  split
  · rfl
  · exact shifted_bind (bracketed_after ((hname _ hp).forward _) _) fun _ _ => rfl

theorem expectEnd_after (earlier : List Char) (s : Cursor) :
    expectEnd (s.after earlier) = shifted earlier id (expectEnd s) := by
  simp only [expectEnd, Cursor.after_ahead, Cursor.after_forward, Cursor.after_atEnd,
    Cursor.after_position]
  split <;> rfl

end

theorem readCall_trivia {u : List Char} (hu : Trivia u) (behind rest : List Char) :
    readCall ⟨behind, u ++ rest⟩ = readCall ⟨u.reverse ++ behind, rest⟩ := by
  have hlength : triviaLength (u ++ rest) = u.length + triviaLength rest :=
    hu.gapLength_append (by decide) rest
  have hforward : (Cursor.mk behind (u ++ rest)).forward (triviaLength (u ++ rest)) =
      (Cursor.mk (u.reverse ++ behind) rest).forward (triviaLength rest) := by
    rw [hlength, ← Cursor.forward_forward, Cursor.forward_append]
  unfold readCall
  dsimp only
  rw [hforward]

section

variable {limits : Limits} {lead source : String} {fault : Fault}

theorem readCall_below (hl : Trivia lead.toList) :
    readCall (.ofList (lead ++ source).toList) = shifted lead.toList.reverse
      (fun (call, rest) => (call.after lead.toList.reverse, rest.after lead.toList.reverse))
      (readCall (.ofList source.toList)) := by
  rw [← readCall_after, String.toList_append]
  simpa [Cursor.ofList, Cursor.after] using readCall_trivia hl [] source.toList

/-- A fault moves with the text, unless it is that of a dotted name. -/
theorem Widget.read_below (hl : Trivia lead.toList)
    (hb : (lead ++ source).utf8ByteSize ≤ limits.bytes)
    (h : Widget.read limits source = .error fault) (hn : ∀ name, fault.cause ≠ .notWidget name) :
    Widget.read limits (lead ++ source) = .error (fault.after lead.toList.reverse) := by
  have hsize : source.utf8ByteSize ≤ limits.bytes := by
    rw [String.utf8ByteSize_append] at hb
    omega
  have hcall := @readCall_below lead source hl
  cases hc : readCall (.ofList source.toList) with
  | error first =>
    rw [hc] at hcall
    rw [read_of_readCall_error hsize hc] at h
    cases h
    exact read_of_readCall_error hb hcall
  | ok found =>
    obtain ⟨call, rest⟩ := found
    rw [hc] at hcall
    cases hd : isDotted call.name with
    | true =>
      rw [read_of_dotted hsize hc hd] at h
      cases h
      exact absurd rfl (hn call.name)
    | false =>
      obtain ⟨n, hat, -⟩ := readCall_eq_ok_iff.mp hc
      rw [read_of_readCall hsize hc hd] at h
      have hend : ∀ w : Widget, (expectEnd (rest.after lead.toList.reverse) >>= fun _ => .ok w) =
          shifted lead.toList.reverse id (expectEnd rest >>= fun _ => .ok w) :=
        fun w => shifted_bind (expectEnd_after _ rest) fun _ _ => rfl
      have hread : (readWidget limits.depth limits.depth (call.after lead.toList.reverse) >>=
            fun w => expectEnd (rest.after lead.toList.reverse) >>= fun _ => .ok w) =
          shifted lead.toList.reverse id (readWidget limits.depth limits.depth call >>=
            fun w => expectEnd rest >>= fun _ => .ok w) :=
        shifted_bind (g := id) (readWidget_after _ _ _ _ (hat.settled _)) fun w _ => hend w
      rw [h] at hread
      rw [read_of_readCall hb hcall hd]
      exact hread

end

/-- So many line breaks. -/
def blankLines (n : Nat) : String := String.ofList (List.replicate n '\n')

theorem toList_blankLines (n : Nat) : (blankLines n).toList = List.replicate n '\n' := by
  simp [blankLines]

theorem trivia_blankLines (n : Nat) : Trivia (blankLines n).toList := by
  rw [toList_blankLines]
  induction n with
  | zero => exact .nil
  | succ n ih => exact .fill (by decide) ih

theorem Text.Position.after_blankLines (p : Position) (n : Nat) :
    p.after (.behind (blankLines n).toList.reverse) = ⟨p.line + n, p.column⟩ := by
  have hline : Position.behind (List.replicate n '\n') = ⟨n + 1, 1⟩ := by
    cases n <;> simp [Position.behind, List.replicate_succ]
  rw [toList_blankLines, List.reverse_replicate, hline]
  unfold Position.after
  split
  · rename_i h
    rw [h]
    simp [Nat.add_comm]
  · rfl

/-- Blank lines in front of a text move its fault down by as many lines, unless it is that of a dotted
name: the cause and the column stay. -/
theorem Widget.read_lowered {limits : Limits} {source : String} {fault : Fault} (n : Nat)
    (h : Widget.read limits source = .error fault) (hn : ∀ name, fault.cause ≠ .notWidget name)
    (hb : (blankLines n ++ source).utf8ByteSize ≤ limits.bytes) :
    Widget.read limits (blankLines n ++ source) =
      .error ⟨⟨fault.position.line + n, fault.position.column⟩, fault.cause⟩ := by
  rw [read_below (trivia_blankLines n) hb h hn, Fault.after,
    Position.after_blankLines]

theorem Widget.read_lowered_rest :
    Widget.read .standard "Row(\n) x" = .error ⟨⟨2, 3⟩, .trailingText⟩ ∧
      Widget.read .standard (blankLines 2 ++ "Row(\n) x") = .error ⟨⟨4, 3⟩, .trailingText⟩ := by
  have h : Widget.read .standard "Row(\n) x" = .error ⟨⟨2, 3⟩, .trailingText⟩ := by cbv
  exact ⟨h, Widget.read_lowered 2 h (fun _ hc => by cases hc) (by decide)⟩

/-- The fault of a dotted name stays at the start of the text. -/
theorem Widget.read_lowered_dotted :
    Widget.read .standard "Text.rich()" = .error ⟨⟨1, 1⟩, .notWidget "Text.rich"⟩ ∧
      Widget.read .standard (blankLines 2 ++ "Text.rich()") =
        .error ⟨⟨1, 1⟩, .notWidget "Text.rich"⟩ := by
  constructor
  · cbv
  · cbv

end WidgetJsx
