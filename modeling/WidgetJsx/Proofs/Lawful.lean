import WidgetJsx.Proofs.Attribute
import WidgetJsx.Proofs.Building

/-! The styles of all that is built are lawful: no attribute is there twice, and the attributes are from a
table for the kind of the widget, with values as the table has them. -/

namespace WidgetJsx

namespace Fields

variable {α : Type} {fs : Fields α}

theorem nodup_empty : (∅ : Fields α).keys.Nodup := List.nodup_nil

theorem nodup_extend (h : fs.keys.Nodup) (gs : Fields α) : (fs.extend gs).keys.Nodup :=
  nodup_setAll h gs.entries

theorem nodup_getD {β : Type} {x? : Option β} {f : β → Fields α} (h : ∀ x, (f x).keys.Nodup) :
    ((x?.map f).getD ∅).keys.Nodup := by
  cases x? with
  | none => exact nodup_empty
  | some x => exact h x

end Fields

open Fields

theorem Style.nodup_padding (text : String) : (Style.padding text).keys.Nodup := by
  have hpositional (c : Construction) (keys : List String) : (positionalSides c keys).keys.Nodup := by
    unfold positionalSides
    split
    · exact nodup_empty
    · exact nodup_ofList _
  have hconstructed (c : Construction) : (constructedInsets c).keys.Nodup := by
    unfold constructedInsets
    split
    · exact nodup_ofList _
    · exact nodup_ofList _
    · exact nodup_ofList _
    · exact nodup_ofList _
    · exact nodup_ofList _
    · exact nodup_ofList _
    · exact hpositional c _
    · exact hpositional c _
    · exact nodup_empty
  unfold padding
  simp only
  split
  · exact nodup_ofList _
  · split
    · exact hconstructed _
    · exact nodup_empty

namespace Widget

theorem nodup_containerStyle (w : Widget) : w.containerStyle.keys.Nodup :=
  nodup_extend (nodup_extend (nodup_extend (nodup_extend (nodup_extend (nodup_ofList _) _) _) _) _) _

theorem nodup_letterStyle (c : Construction) : (letterStyle c).keys.Nodup :=
  nodup_extend (nodup_extend (nodup_extend (nodup_extend (nodup_extend (nodup_ofList _) _) _) _) _) _

theorem nodup_textStyle (w : Widget) : w.textStyle.keys.Nodup :=
  nodup_extend (nodup_getD nodup_letterStyle) _

theorem nodup_flexStyle (w : Widget) (direction : String) : (w.flexStyle direction).keys.Nodup :=
  nodup_extend (nodup_extend (nodup_ofList _) _) _

theorem nodup_style (w : Widget) : w.style.keys.Nodup := by
  unfold style
  split
  · exact nodup_containerStyle w
  · exact nodup_textStyle w
  · exact nodup_textStyle w
  · exact nodup_flexStyle w "row"
  · exact nodup_flexStyle w "column"
  · exact nodup_ofList _
  · exact nodup_extend (nodup_ofList _) _
  · exact nodup_ofList _
  · exact nodup_ofList _
  · exact nodup_ofList _
  · exact nodup_getD Style.nodup_padding
  · exact nodup_ofList _
  · exact nodup_ofList _
  · exact nodup_empty

end Widget

/-- Whatever the arguments are, each node that is built has every attribute once, and its attributes keep to
one table for the kind of the widget that it is built of: their names are in the table, and they hold finite
numbers and texts as the table says. -/
theorem Builder.build_lawful (b : Builder) (w : Widget) :
    List.Forall₂ (fun v n => n.style.keys.Nodup ∧ ∃ table ∈ Widget.tables v.name, n.style.KeepsTo table)
      w.nested ((build w).run b).1.nodes := by
  rw [run_build_fst, Element.nodes_ofWidget, List.forall₂_map_right_iff]
  refine List.forall₂_same.mpr fun v _ => ?_
  rw [Element.ofWidget]
  exact ⟨v.nodup_style, v.keeps_style⟩

end WidgetJsx
