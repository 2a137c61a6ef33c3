import Mathlib.Logic.Relation
import WidgetJsx.Proofs.Fields
import WidgetJsx.Widget.Reading

/-! The widgets that a widget holds, in its arguments and inside it, and what moves between the two
when the content is split off. -/

namespace WidgetJsx

def Argument.held {W : Type} : Argument W → List W
  | widget w => [w]
  | widgets ws => ws
  | _ => []

namespace Widget

/-- The widgets that stand in the arguments, and those inside. -/
def held (w : Widget) : List Widget :=
  w.arguments.entries.flatMap (fun entry => entry.2.held) ++ w.content.toList

/-- A widget or one held by it, at whatever depth. -/
abbrev Within (v w : Widget) : Prop := Relation.ReflTransGen (fun a b => b ∈ held a) w v

theorem within_iff {v w : Widget} : Within v w ↔ w = v ∨ ∃ u ∈ w.held, Within v u :=
  Relation.ReflTransGen.cases_head_iff

theorem sizeOf_lt_of_mem_argument {a : Argument Widget} {v : Widget} (h : v ∈ a.held) :
    sizeOf v < sizeOf a := by
  cases a with
  | widget w =>
    obtain rfl := List.mem_singleton.mp h
    simp
  | widgets ws =>
    have := List.sizeOf_lt_of_mem (show v ∈ ws from h)
    simp only [Argument.widgets.sizeOf_spec]
    omega
  | string | number | boolean | reference | construction | raw => exact absurd h List.not_mem_nil

theorem sizeOf_lt_of_mem_held {v w : Widget} (h : v ∈ w.held) : sizeOf v < sizeOf w := by
  obtain ⟨name, ⟨entries⟩, text?, content⟩ := w
  rcases List.mem_append.mp h with h | h
  · obtain ⟨entry, hm, hv⟩ := List.mem_flatMap.mp h
    have := sizeOf_lt_of_mem_argument hv
    have := List.sizeOf_lt_of_mem hm
    obtain ⟨key, value⟩ := entry
    simp only [mk.sizeOf_spec, Fields.mk.sizeOf_spec, Prod.mk.sizeOf_spec] at *
    omega
  · cases content with
    | none => exact absurd h List.not_mem_nil
    | child c =>
      obtain rfl := List.mem_singleton.mp h
      simp only [mk.sizeOf_spec, Content.child.sizeOf_spec]
      omega
    | children cs =>
      have := List.sizeOf_lt_of_mem (show v ∈ cs from h)
      simp only [mk.sizeOf_spec, Content.children.sizeOf_spec]
      omega

/-- The number of levels: one for the widget, and those of the deepest that it holds. -/
def depth (w : Widget) : Nat :=
  (w.held.attach.map fun ⟨v, _⟩ => v.depth).foldr max 0 + 1
termination_by sizeOf w
decreasing_by exact sizeOf_lt_of_mem_held ‹_›

theorem foldr_max_le_iff {l : List Nat} {n : Nat} : l.foldr max 0 ≤ n ↔ ∀ m ∈ l, m ≤ n := by
  induction l with
  | nil => simp
  | cons m l ih => rw [List.foldr_cons, Nat.max_le, ih, List.forall_mem_cons]

theorem depth_le_succ_iff {w : Widget} {n : Nat} : w.depth ≤ n + 1 ↔ ∀ v ∈ w.held, v.depth ≤ n := by
  rw [depth]
  simp [foldr_max_le_iff]

theorem depth_pos (w : Widget) : 0 < w.depth := by
  rw [depth]
  exact Nat.succ_pos _

theorem depth_eq_one {w : Widget} (h : w.held = []) : w.depth = 1 := by
  have hle : w.depth ≤ 0 + 1 := depth_le_succ_iff.mpr (by simp [h])
  have := w.depth_pos
  omega

end Widget

namespace Content

variable {fs : Fields (Argument Widget)}

/-- All that splitting off the content can do. -/
theorem split_cases (fs : Fields (Argument Widget)) :
    (∃ w, fs.get? "child" = some (.widget w) ∧ split fs = (fs.erase "child", .child w)) ∨
    ((∀ w, fs.get? "child" ≠ some (.widget w)) ∧
      ∃ ws, fs.get? "children" = some (.widgets ws) ∧
        split fs = (fs.erase "children", .children ws)) ∨
    ((∀ w, fs.get? "child" ≠ some (.widget w)) ∧
      (∀ ws, fs.get? "children" ≠ some (.widgets ws)) ∧ split fs = (fs, .none)) := by
  unfold split
  split
  · exact .inl ⟨_, ‹_›, rfl⟩
  · exact .inr (.inl ⟨‹_›, _, ‹_›, rfl⟩)
  · exact .inr (.inr ⟨‹_›, ‹_›, rfl⟩)

theorem mem_split {entry : String × Argument Widget} (h : entry ∈ (split fs).1.entries) :
    entry ∈ fs.entries := by
  rcases split_cases fs with ⟨w, -, he⟩ | ⟨-, ws, -, he⟩ | ⟨-, -, he⟩
  · exact Fields.mem_of_mem_erase (by rwa [he] at h)
  · exact Fields.mem_of_mem_erase (by rwa [he] at h)
  · rwa [he] at h

theorem nodup_split (h : fs.keys.Nodup) : (split fs).1.keys.Nodup := by
  rcases split_cases fs with ⟨w, -, he⟩ | ⟨-, ws, -, he⟩ | ⟨-, -, he⟩
  · exact he ▸ Fields.nodup_erase h _
  · exact he ▸ Fields.nodup_erase h _
  · exact he ▸ h

theorem exists_entry_of_mem_split {v : Widget} (h : v ∈ (split fs).2.toList) :
    ∃ entry ∈ fs.entries, v ∈ entry.2.held := by
  rcases split_cases fs with ⟨w, hg, he⟩ | ⟨-, ws, hg, he⟩ | ⟨-, -, he⟩
  · exact ⟨_, Fields.mem_of_get? hg, by rwa [he] at h⟩
  · exact ⟨_, Fields.mem_of_get? hg, by rwa [he] at h⟩
  · rw [he] at h
    exact absurd h List.not_mem_nil

theorem child_not_mem_split (hn : fs.keys.Nodup) (w : Widget) :
    ("child", .widget w) ∉ (split fs).1.entries := by
  intro h
  rcases split_cases fs with ⟨u, -, he⟩ | ⟨hc, ws, -, he⟩ | ⟨hc, -, he⟩
  · exact Fields.not_mem_erase hn (by rwa [he] at h)
  · exact hc w ((Fields.get?_eq_some_iff hn).mpr (mem_split h))
  · exact hc w ((Fields.get?_eq_some_iff hn).mpr (mem_split h))

/-- A list of widgets is left under `children` only beside a `child`. -/
theorem exists_child_of_children_mem_split (hn : fs.keys.Nodup) {ws : List Widget}
    (h : ("children", .widgets ws) ∈ (split fs).1.entries) : ∃ w, (split fs).2 = .child w := by
  rcases split_cases fs with ⟨w, -, he⟩ | ⟨-, us, -, he⟩ | ⟨-, hc, he⟩
  · exact ⟨w, by rw [he]⟩
  · exact absurd (by rwa [he] at h) (Fields.not_mem_erase hn)
  · exact absurd ((Fields.get?_eq_some_iff hn).mpr (mem_split h)) (hc ws)

end Content

end WidgetJsx
