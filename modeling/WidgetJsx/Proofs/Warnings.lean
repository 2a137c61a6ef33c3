import WidgetJsx.Proofs.Building

/-! What a builder warns of. Its two lists go on together, name by name, so that after any sequence of trees
there is one warning for each unknown name among the widgets that stand inside them, where the name was first
met. -/

namespace WidgetJsx

/-- Names of one kind, each once, come in the order in which the whole sequence first has them. -/
theorem pairwise_firstMet (p : String → Bool) (names : List String) :
    (names.filter p).eraseDups.Pairwise fun m n => names.idxOf m < names.idxOf n := by
  induction names using List.reverseRecOn with
  | nil => exact .nil
  | append_singleton names name ih =>
    have hmem : ∀ m ∈ (names.filter p).eraseDups, m ∈ names := fun m hm =>
      (List.mem_filter.mp (List.mem_eraseDups.mp hm)).1
    have hold : ∀ m ∈ names, (names ++ [name]).idxOf m = names.idxOf m := fun m hm => by
      rw [List.idxOf_append, if_pos hm]
    have hfront : (names.filter p).eraseDups.Pairwise fun m n =>
        (names ++ [name]).idxOf m < (names ++ [name]).idxOf n := by
      refine ih.imp_of_mem fun hm hn hlt => ?_
      rwa [hold _ (hmem _ hm), hold _ (hmem _ hn)]
    rw [List.filter_append]
    by_cases hp : p name = true
    · rw [List.filter_cons_of_pos hp, List.filter_nil, eraseDups_concat]
      split
      · exact hfront
      · rename_i hnew
        have hname : name ∉ names := fun hm => hnew (List.mem_filter.mpr ⟨hm, hp⟩)
        refine List.pairwise_append.mpr ⟨hfront, List.pairwise_singleton _ _, fun m hm n hn => ?_⟩
        obtain rfl := List.mem_singleton.mp hn
        have hlast : (names ++ [n]).idxOf n = names.length := by
          rw [List.idxOf_append, if_neg hname]
          simp
        rw [hold m (hmem m hm), hlast]
        exact List.idxOf_lt_length_of_mem (hmem m hm)
    · rw [List.filter_cons_of_neg hp, List.filter_nil, List.append_nil]
      exact hfront

theorem Catalog.warning_injective : Function.Injective Catalog.warning := by
  intro m n h
  have hl := congrArg String.toList h
  simp only [Catalog.warning, String.toList_append, List.append_assoc] at hl
  exact String.toList_injective (List.append_cancel_right (List.append_cancel_left hl))

namespace Builder

/-- There is one warning for each noted name, in the order of the names. -/
def Paired (b : Builder) : Prop := b.warnings = b.unknown.map Catalog.warning

theorem Paired.note {b : Builder} (h : b.Paired) (name : String) : (b.note name).Paired := by
  unfold Builder.note
  split
  · exact h
  · rw [Paired, List.map_append, h]
    rfl

theorem prefix_note (b : Builder) (name : String) : b.warnings <+: (b.note name).warnings := by
  unfold note
  split
  · exact List.prefix_refl _
  · exact List.prefix_append _ _

section

variable {names : List String}

theorem Paired.notes {b : Builder} (h : b.Paired) : (names.foldl Builder.note b).Paired := by
  induction names generalizing b with
  | nil => exact h
  | cons name names ih => exact ih (h.note name)

theorem prefix_notes (b : Builder) : b.warnings <+: (names.foldl note b).warnings := by
  induction names generalizing b with
  | nil => exact List.prefix_refl _
  | cons name names ih => exact (prefix_note b name).trans (ih (b.note name))

theorem unknown_notes : (names.foldl note new).unknown = names.eraseDups := by
  induction names using List.reverseRecOn with
  | nil => rfl
  | append_singleton names name ih =>
    rw [List.foldl_append, List.foldl_cons, List.foldl_nil, note, ih, eraseDups_concat]
    have hc : names.eraseDups.contains name = true ↔ name ∈ names := by
      rw [List.contains_iff_mem, List.mem_eraseDups]
    simp only [hc]
    split
    · exact ih
    · rfl

theorem warnings_notes : (names.foldl note new).warnings = names.eraseDups.map Catalog.warning := by
  have hpaired : (names.foldl note new).Paired := Paired.notes rfl
  rw [hpaired, unknown_notes]

end

theorem run_builds (ws : List Widget) (b : Builder) :
    ((ws.mapM build).run b).2 = (ws.flatMap Widget.unknownNames).foldl note b := by
  have hrun := run_mapM (fun w _ b => run_build w b) b (l := ws)
  rw [hrun, List.foldl_flatMap]

theorem unknownNames_flatMap (ws : List Widget) : ws.flatMap Widget.unknownNames =
    ((ws.flatMap Widget.nested).map Widget.name).filter fun name => !Catalog.isKnown name := by
  rw [List.map_flatMap, List.filter_flatMap]
  rfl

/-- After any sequence of trees there is one warning for each unknown name, in the order in which the names
are first met among the widgets that stand inside the trees; a name that stands in arguments only is none of
them. Trees that are built later add warnings behind those that are there, and no two names have the same
warning. -/
theorem warnings_exact (ws : List Widget) :
    let met := (ws.flatMap Widget.nested).map Widget.name
    let b := ((ws.mapM build).run new).2
    b.warnings = (Widget.allUnknownNames ws).map Catalog.warning ∧
      (Widget.allUnknownNames ws).Pairwise (fun m n => met.idxOf m < met.idxOf n) ∧
      (∀ name, Catalog.warning name ∈ b.warnings ↔ name ∈ met ∧ Catalog.isKnown name = false) ∧
      (∀ more : List Widget, b.warnings <+: ((more.mapM build).run b).2.warnings) ∧
      Function.Injective Catalog.warning := by
  intro met b
  have hnames : Widget.allUnknownNames ws = (met.filter fun name => !Catalog.isKnown name).eraseDups := by
    rw [Widget.allUnknownNames, unknownNames_flatMap]
  have hb : b = (ws.flatMap Widget.unknownNames).foldl note new := run_builds ws new
  have hwarnings : b.warnings = (Widget.allUnknownNames ws).map Catalog.warning := by
    rw [hb, warnings_notes]
    rfl
  refine ⟨hwarnings, ?_, fun name => ?_, fun more => ?_, Catalog.warning_injective⟩
  · rw [hnames]
    exact pairwise_firstMet _ met
  · rw [hwarnings, List.mem_map_of_injective Catalog.warning_injective, hnames, List.mem_eraseDups,
      List.mem_filter, Bool.not_eq_true']
  · rw [run_builds]
    exact prefix_notes b

end Builder

end WidgetJsx
