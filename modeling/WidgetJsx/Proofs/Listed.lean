import WidgetJsx.Proofs.Crossing
import WidgetJsx.Proofs.Form
import WidgetJsx.Proofs.Margin

/-! Lists of items of any kind, with commas between them. Wherever gaps and commas stand, the items are
read one by one, each from its own text. -/

namespace WidgetJsx.Expression

open Text (Cursor)

variable {α β : Type} {written : α → List Char → Prop} {as : List α} {u rest : List Char}

/-- The items are written one behind the other, with at least a comma between any two. -/
inductive Listed (written : α → List Char → Prop) : List α → List Char → Prop
  | nil {gap : List Char} : Separators gap → Listed written [] gap
  | last {a : α} {gap u trail : List Char} : Separators gap → written a u → Trivia trail →
      Listed written [a] (gap ++ (u ++ trail))
  | more {a : α} {as : List α} {gap u between v : List Char} : Separators gap → written a u →
      Trivia between → Listed written as v →
      Listed written (a :: as) (gap ++ (u ++ (between ++ ',' :: v)))

namespace Listed

/-- Whatever stands in front of a list, `starts` holds of what stands in front of each of its items. -/
structure Starting (starts : List Char → Prop) : Prop where
  gap : ∀ {gap behind}, Separators gap → starts behind → starts (gap.reverse ++ behind)
  comma : ∀ behind, starts (',' :: behind)

theorem crosses {starts : List Char → Prop} (hstart : Starting starts)
    (hfirm : ∀ a ∈ as, ∀ u, written a u → Firm u)
    (hitem : ∀ a ∈ as, ∀ {u behind rest}, written a u → starts behind → Follows rest →
      Crosses behind u rest)
    (h : Listed written as u) {behind : List Char} (hb : starts behind) (hr : Shut rest) :
    Crosses behind u rest := by
  induction h generalizing behind with
  | nil hg => exact hg.crosses hr.solid_separators behind
  | @last a gap u trail hg hu ht =>
    have hgap : Crosses behind gap (u ++ trail ++ rest) := by
      rw [List.append_assoc]
      exact hg.crosses ((hfirm a (by simp) u hu).append _).solid_separators behind
    have hfollows : Follows (trail ++ rest) := ⟨trail, rest, rfl, ht, fun c hc => .inr (hr c hc)⟩
    exact hgap.append ((hitem a (by simp) hu (hstart.gap hg hb) hfollows).append
      (ht.crosses hr.solid _))
  | @more a as gap u between v hg hu ht hv ih =>
    have hgap : Crosses behind gap (u ++ (between ++ ',' :: v) ++ rest) := by
      rw [List.append_assoc]
      exact hg.crosses ((hfirm a (by simp) u hu).append _).solid_separators behind
    have hfollows : Follows (between ++ ',' :: v ++ rest) :=
      ⟨between, ',' :: (v ++ rest), by simp, ht, by simp⟩
    have hbetween := ht.crosses (solid_cons (c := ',') (by decide) (by decide) (v ++ rest))
      (u.reverse ++ (gap.reverse ++ behind))
    have htail := ih (fun b hm => hfirm b (by simp [hm])) (fun b hm => hitem b (by simp [hm]))
      (hstart.comma (between.reverse ++ (u.reverse ++ (gap.reverse ++ behind))))
    exact hgap.append ((hitem a (by simp) hu (hstart.gap hg hb) hfollows).append
      (hbetween.append (((mark_of_mem (by simp)).crosses _ _).cons htail)))

variable {item : Cursor → Except Fault (β × Nat)} {f : α → β}

theorem readAll_nil {gap : List Char} (hg : Separators gap) (found : List β) (behind : List Char) :
    readAll item found ⟨behind, gap⟩ = .ok found.reverse := by
  have he := separated_append hg behind []
  rw [List.append_nil, separated_of_solid solid_nil] at he
  exact readAll_end (by rw [he])

theorem readAll_cons {gap v : List Char} {b : β} (hg : Separators gap) (hne : u ≠ [])
    (hs : Solid (fun c => Text.isBlank c || c == ',') (u ++ v)) {behind : List Char}
    (hitem : item ⟨gap.reverse ++ behind, u ++ v⟩ = .ok (b, u.length))
    (found : List β) : readAll item found ⟨behind, gap ++ (u ++ v)⟩ =
      readAll item (b :: found) ⟨u.reverse ++ (gap.reverse ++ behind), v⟩ := by
  have hsep : separated ⟨behind, gap ++ (u ++ v)⟩ = ⟨gap.reverse ++ behind, u ++ v⟩ := by
    rw [separated_append hg, separated_of_solid hs]
  have hsome : (separated ⟨behind, gap ++ (u ++ v)⟩).ahead ≠ [] := by
    rw [hsep]
    exact List.append_ne_nil_of_left_ne_nil hne v
  have hpos : max 1 u.length = u.length := Nat.max_eq_right (List.length_pos_iff.mpr hne)
  rw [readAll_step hsome (hsep ▸ hitem), hsep, hpos, Cursor.forward_append]

theorem readAll_comma {between v : List Char} (ht : Trivia between) (found : List β)
    (behind : List Char) : readAll item found ⟨behind, between ++ ',' :: v⟩ =
      readAll item found ⟨',' :: (between.reverse ++ behind), v⟩ := by
  have hcomma : Separators (between ++ [',']) :=
    (Trivia.separators ht).append (.fill (by decide) .nil)
  have hskip := separated_append hcomma behind v
  rw [List.append_assoc, List.singleton_append] at hskip
  rw [readAll_congr hskip]
  simp

/-- A reader that takes each item where it is written reads the whole list. -/
theorem readAll_eq {starts : List Char → Prop} (hstart : Starting starts)
    (hfirm : ∀ a ∈ as, ∀ u, written a u → Firm u)
    (hitem : ∀ a ∈ as, ∀ {u behind rest}, written a u → starts behind → Follows rest →
      item ⟨behind, u ++ rest⟩ = .ok (f a, u.length))
    (h : Listed written as u) {behind : List Char} (hb : starts behind) (found : List β) :
    readAll item found ⟨behind, u⟩ = .ok (found.reverse ++ as.map f) := by
  induction h generalizing behind found with
  | nil hg => simpa using readAll_nil hg found behind
  | @last a gap u trail hg hu ht =>
    have hf := hfirm a (by simp) u hu
    have hfollows : Follows trail := ⟨trail, [], by simp, ht, by simp⟩
    rw [readAll_cons hg hf.ne_nil (hf.append trail).solid_separators
      (hitem a (by simp) hu (hstart.gap hg hb) hfollows), readAll_nil (Trivia.separators ht)]
    simp
  | @more a as gap u between v hg hu ht hv ih =>
    have hf := hfirm a (by simp) u hu
    have hfollows : Follows (between ++ ',' :: v) := ⟨between, ',' :: v, rfl, ht, by simp⟩
    rw [readAll_cons hg hf.ne_nil (hf.append _).solid_separators
      (hitem a (by simp) hu (hstart.gap hg hb) hfollows), readAll_comma ht,
      ih (fun b hm => hfirm b (by simp [hm])) (fun b hm => hitem b (by simp [hm]))
        (hstart.comma _)]
    simp

theorem exists_of_written (h : ∀ a ∈ as, ∃ u, written a u) : ∃ u, Listed written as u := by
  induction as with
  | nil => exact ⟨[], .nil .nil⟩
  | cons a as ih =>
    obtain ⟨u, hu⟩ := h a (by simp)
    obtain ⟨v, hv⟩ := ih fun b hb => h b (by simp [hb])
    exact ⟨_, .more .nil hu .nil hv⟩

end Listed

end WidgetJsx.Expression
