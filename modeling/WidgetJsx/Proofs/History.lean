import WidgetJsx.Proofs.Lawful

/-! A style remembers of all that was written to it the last value for each key, and the order in which
the keys first came. How the writes were put together, one by one or as whole styles, makes no
difference. -/

namespace WidgetJsx

theorem eraseDups_append_eraseDups (xs ys : List String) :
    (xs ++ ys.eraseDups).eraseDups = (xs ++ ys).eraseDups := by
  induction ys using List.reverseRecOn with
  | nil => rfl
  | append_singleton ys y ih =>
    rw [eraseDups_concat, ← List.append_assoc, eraseDups_concat]
    by_cases hy : y ∈ ys
    · rw [if_pos hy, if_pos (List.mem_append_right xs hy), ih]
    · rw [if_neg hy, ← List.append_assoc, eraseDups_concat, ih]
      simp only [List.mem_append, List.mem_eraseDups]

theorem eraseDups_append_self (xs : List String) : (xs ++ xs).eraseDups = xs.eraseDups := by
  have hr : xs.removeAll xs = [] := by simp [List.removeAll]
  rw [List.eraseDups_append, hr, List.eraseDups_nil, List.append_nil]

namespace Fields

variable {α : Type} {fs gs : Fields α}

theorem map_get?_keys (h : fs.keys.Nodup) :
    fs.keys.map (fun key => (key, fs.get? key)) = fs.entries.map (Prod.map id some) := by
  rw [keys, List.map_map]
  apply List.map_congr_left
  intro entry hm
  exact congrArg (Prod.mk entry.1) ((get?_eq_some_iff h).mpr hm)

/-- A table is its keys in their order, and what it has for each. -/
theorem eq_of_get? (hf : fs.keys.Nodup) (hk : fs.keys = gs.keys)
    (hget : ∀ key, fs.get? key = gs.get? key) : fs = gs := by
  have hg : gs.keys.Nodup := hk ▸ hf
  have he : fs.entries.map (Prod.map id some) = gs.entries.map (Prod.map id some) := by
    rw [← map_get?_keys hf, ← map_get?_keys hg, hk]
    simp only [hget]
  have hinj : Function.Injective (Prod.map id some : String × α → String × Option α) :=
    Function.injective_id.prodMap (Option.some_injective α)
  obtain ⟨xs⟩ := fs
  obtain ⟨ys⟩ := gs
  exact congrArg Fields.mk (List.map_injective_iff.mpr hinj he)

theorem ofList_entries (xs : List (String × α)) : ofList (ofList xs).entries = ofList xs :=
  ofList_of_nodup (nodup_ofList xs)

/-- What is written as one table counts as what went into the table. -/
theorem extend_ofList (xs ys : List (String × α)) :
    (ofList xs).extend (ofList ys) = ofList (xs ++ ys) := by
  have he : (ofList xs).extend (ofList ys) = ofList (xs ++ (ofList ys).entries) := by
    simp only [extend, setAll, ofList, List.foldl_append]
  rw [he]
  apply eq_of_get? (nodup_ofList _)
  · have hk : (ofList ys).entries.map Prod.fst = (ys.map Prod.fst).eraseDups := keys_ofList ys
    rw [keys_ofList, keys_ofList, List.map_append, List.map_append, hk, eraseDups_append_eraseDups]
  · intro key
    have hy : (ofList ys).entries.reverse.lookup key = ys.reverse.lookup key := by
      rw [← get?_ofList, ofList_entries, get?_ofList]
    rw [get?_ofList, get?_ofList, List.reverse_append, List.reverse_append, List.lookup_append,
      List.lookup_append, hy]

theorem ofList_append_self (xs : List (String × α)) : ofList (xs ++ xs) = ofList xs := by
  apply eq_of_get? (nodup_ofList _)
  · rw [keys_ofList, keys_ofList, List.map_append, eraseDups_append_self]
  · intro key
    rw [get?_ofList, get?_ofList, List.reverse_append, List.lookup_append, Option.or_self]

theorem size_eq_length_keys (fs : Fields α) : fs.size = fs.keys.length :=
  (List.length_map _).symm

theorem isEmpty_ofList (xs : List (String × α)) : (ofList xs).isEmpty = xs.isEmpty := by
  cases xs with
  | nil => rfl
  | cons entry xs =>
    have hm : entry.1 ∈ (ofList (entry :: xs)).keys := by
      rw [keys_ofList, List.mem_eraseDups]
      exact List.mem_cons_self
    have hne : (ofList (entry :: xs)).entries ≠ [] := by
      intro he
      rw [keys, he] at hm
      exact absurd hm List.not_mem_nil
    simpa [isEmpty] using hne

/-- How a table came about: from the empty one, by writing to one key or by taking over a table that came
about in the same way. -/
inductive History (α : Type)
  | empty
  | set (before : History α) (key : String) (value : α)
  | extend (before other : History α)

namespace History

def table : History α → Fields α
  | empty => ∅
  | set before key value => before.table.set key value
  | extend before other => before.table.extend other.table

/-- All that was ever written, in order, with what was written to a table that was taken over. -/
def writes : History α → List (String × α)
  | empty => []
  | set before key value => before.writes ++ [(key, value)]
  | extend before other => before.writes ++ other.writes

theorem table_eq (h : History α) : h.table = ofList h.writes := by
  induction h with
  | empty => rfl
  | set before key value ih => rw [table, writes, ofList_concat, ih]
  | extend before other ihb iho => rw [table, writes, ihb, iho, extend_ofList]

theorem extend_assoc (a b c : History α) :
    (a.table.extend b.table).extend c.table = a.table.extend (b.table.extend c.table) := by
  simp only [table_eq, extend_ofList, List.append_assoc]

theorem extend_self (h : History α) : h.table.extend h.table = h.table := by
  rw [table_eq, extend_ofList, ofList_append_self]

end History

end Fields

namespace Style

open Fields

/-- The last of the writes to a key has its value, and the first its place. -/
structure Records (writes : List (String × Value)) (style : Style) : Prop where
  keys : style.keys = (writes.map Prod.fst).eraseDups
  get? : ∀ key, style.get? key = writes.reverse.lookup key
  number? : ∀ key x, style.number? key = some x ↔ writes.reverse.lookup key = some (.number x)
  size : style.size = (writes.map Prod.fst).eraseDups.length
  isEmpty : style.isEmpty = writes.isEmpty

theorem number?_eq_some_iff {style : Style} {key : String} {x : Binary64} :
    style.number? key = some x ↔ style.get? key = some (.number x) := by
  unfold number?
  split
  · rename_i y hy
    simp [hy]
  · rename_i hno
    simpa using hno x

theorem records_ofList (writes : List (String × Value)) : Records writes (.ofList writes) where
  keys := keys_ofList writes
  get? := get?_ofList writes
  number? key x := by rw [number?_eq_some_iff, get?_ofList]
  size := by rw [size_eq_length_keys, keys_ofList]
  isEmpty := isEmpty_ofList writes

/-- The name of an attribute of a padding, and that of the margin's attribute for the same side. -/
def Renamed (inner outer : String) : Prop :=
  ∃ side, inner = "padding" ++ side ∧ outer = "margin" ++ side

theorem renamed_biUnique : Relator.BiUnique Renamed := by
  constructor
  · rintro _ _ outer ⟨side, rfl, hs⟩ ⟨side', rfl, hs'⟩
    rw [(String.append_right_inj "margin").mp (hs.symm.trans hs')]
  · rintro inner _ _ ⟨side, hs, rfl⟩ ⟨side', hs', rfl⟩
    rw [(String.append_right_inj "padding").mp (hs.symm.trans hs')]

theorem exists_side (text : String) {entry : String × Value} (hm : entry ∈ (padding text).entries) :
    ∃ side, entry.1 = "padding" ++ side := by
  have hfront : ∀ pair ∈ insetTable "padding", "padding".toList <+: pair.1.toList := by decide
  obtain ⟨kind, hk, -⟩ := keeps_padding text entry hm
  obtain ⟨side, hs⟩ := hfront _ hk
  refine ⟨String.ofList side, String.toList_injective ?_⟩
  simpa [String.toList_append] using hs.symm

/-- The margin has the entries of the padding, under other names. -/
theorem margin_renamed (text : String) :
    List.Forall₂ (fun inner outer => Renamed inner.1 outer.1 ∧ inner.2 = outer.2)
      (padding text).entries (margin text).entries := by
  rw [margin, renamePrefix, List.forall₂_map_right_iff]
  refine List.forall₂_same.mpr fun entry hm => ?_
  obtain ⟨side, hs⟩ := exists_side text hm
  have hfront : "padding".toList.isPrefixOf entry.1.toList = true := by
    rw [hs, String.toList_append]
    exact List.isPrefixOf_iff_prefix.mpr (List.prefix_append _ _)
  simp only [hfront, if_true]
  refine ⟨⟨side, hs, ?_⟩, trivial⟩
  rw [hs, String.toList_append, List.drop_left, String.ofList_toList]

theorem nodup_margin (text : String) : (margin text).keys.Nodup := by
  have hkeys : List.Forall₂ Renamed (padding text).keys (margin text).keys := by
    rw [Fields.keys, Fields.keys, List.forall₂_map_left_iff, List.forall₂_map_right_iff]
    exact (margin_renamed text).imp fun _ _ h => h.1
  exact (List.rel_nodup renamed_biUnique hkeys).mp (nodup_padding text)

/-- A style that came about by any writes, one by one or as styles that are taken over, has each written key
once, where it was first written and with the value that was last written. Taking styles over is
associative, and a style that takes itself over stays as it is. The attributes of a margin are those of the
padding, in their order and under names of their own. -/
theorem last_write_wins :
    (∀ h : History Value, Records h.writes h.table) ∧
      (∀ a b c : History Value, (a.table.extend b.table).extend c.table =
        a.table.extend (b.table.extend c.table)) ∧
      (∀ h : History Value, h.table.extend h.table = h.table) ∧
      ∀ text, List.Forall₂ (fun inner outer => Renamed inner.1 outer.1 ∧ inner.2 = outer.2)
        (padding text).entries (margin text).entries ∧ (margin text).keys.Nodup := by
  refine ⟨fun h => ?_, History.extend_assoc, History.extend_self, fun text => ?_⟩
  · rw [History.table_eq]
    exact records_ofList h.writes
  · exact ⟨margin_renamed text, nodup_margin text⟩

end Style

end WidgetJsx
