import Mathlib.Data.List.Induction
import Mathlib.Data.List.Nodup
import WidgetJsx.Fields

/-! Entries with no name twice, and two tables with the same names. Setting, erasing and reading a list in
order all keep them so. -/

namespace WidgetJsx

theorem eraseDups_concat (names : List String) (name : String) : (names ++ [name]).eraseDups =
    if name ∈ names then names.eraseDups else names.eraseDups ++ [name] := by
  rw [List.eraseDups_append]
  by_cases h : name ∈ names
  · have hr : [name].removeAll names = [] := by simp [List.removeAll, h]
    rw [if_pos h, hr, List.eraseDups_nil, List.append_nil]
  · have hr : [name].removeAll names = [name] := by simp [List.removeAll, h]
    rw [if_neg h, hr]
    rfl

namespace Fields

variable {α : Type} {fs : Fields α} {key key' : String} {value value' : α}

theorem keys_set (fs : Fields α) (key : String) (value : α) : (fs.set key value).keys =
    if key ∈ fs.keys then fs.keys else fs.keys ++ [key] := by
  unfold set
  by_cases h : key ∈ fs.keys
  · rw [if_pos (by simpa using h), if_pos h, keys, List.map_map]
    apply List.map_congr_left
    intro entry _
    by_cases he : entry.1 = key <;> simp [he]
  · rw [if_neg (by simpa using h), if_neg h, keys, List.map_append]
    rfl

theorem lookup_cons_ne {name : String} (h : key ≠ name) (value : α) (entries : List (String × α)) :
    ((name, value) :: entries).lookup key = entries.lookup key := by
  have hne : (key == name) = false := by simpa using h
  rw [List.lookup_cons, hne]

theorem lookup_replace (entries : List (String × α)) (key key' : String) (value : α) :
    (entries.map fun entry => if entry.1 == key then (key, value) else entry).lookup key' =
      if key' = key then (entries.lookup key').map fun _ => value else entries.lookup key' := by
  induction entries with
  | nil => simp
  | cons entry entries ih =>
    obtain ⟨name, old⟩ := entry
    by_cases hk : key' = name
    · subst hk
      by_cases he : key' = key <;> simp [he]
    · have hhead : (if name == key then (key, value) else (name, old)) =
          (name, if name = key then value else old) := by
        by_cases he : name = key <;> simp [he]
      rw [List.map_cons, hhead, lookup_cons_ne hk, lookup_cons_ne hk, ih]

theorem get?_set (fs : Fields α) (key key' : String) (value : α) :
    (fs.set key value).get? key' = if key' = key then some value else fs.get? key' := by
  unfold set
  by_cases h : key ∈ fs.keys
  · rw [if_pos (by simpa using h), get?, lookup_replace, get?]
    split
    · rename_i hk
      obtain ⟨old, ho⟩ : ∃ old, fs.entries.lookup key = some old := by
        obtain ⟨entry, hm, rfl⟩ := List.mem_map.mp h
        exact Option.isSome_iff_exists.mp (List.lookup_isSome_iff.mpr ⟨entry, hm, by simp⟩)
      rw [hk, ho, Option.map_some]
    · rfl
  · have hnone : fs.entries.lookup key = none := by
      refine List.lookup_eq_none_iff.mpr fun entry hm => ?_
      simpa using fun he : key = entry.1 => h (he ▸ List.mem_map_of_mem hm)
    rw [if_neg (by simpa using h), get?, List.lookup_append, get?]
    by_cases hk : key' = key
    · simp [hk, hnone]
    · rw [if_neg hk, lookup_cons_ne hk, List.lookup_nil, Option.or_none]

theorem nodup_set (h : fs.keys.Nodup) (key : String) (value : α) :
    (fs.set key value).keys.Nodup := by
  rw [keys_set]
  split
  · exact h
  · rename_i hk
    exact List.nodup_append.mpr ⟨h, by simp, fun a ha b hb => by
      obtain rfl := List.mem_singleton.mp hb
      rintro rfl
      exact hk ha⟩

theorem mem_set {entry : String × α} (h : entry ∈ (fs.set key value).entries) :
    entry = (key, value) ∨ entry ∈ fs.entries := by
  unfold set at h
  split at h
  · obtain ⟨old, hm, rfl⟩ := List.mem_map.mp h
    split
    · exact .inl rfl
    · exact .inr hm
  · rcases List.mem_append.mp h with h | h
    · exact .inr h
    · exact .inl (List.mem_singleton.mp h)

theorem nodup_setAll (h : fs.keys.Nodup) (entries : List (String × α)) :
    (fs.setAll entries).keys.Nodup := by
  induction entries generalizing fs with
  | nil => exact h
  | cons entry entries ih => exact ih (nodup_set h _ _)

theorem mem_setAll {entries : List (String × α)} {entry : String × α}
    (h : entry ∈ (fs.setAll entries).entries) : entry ∈ fs.entries ∨ entry ∈ entries := by
  induction entries generalizing fs with
  | nil => exact .inl h
  | cons first entries ih =>
    rcases ih h with h | h
    · rcases mem_set h with rfl | h
      · exact .inr List.mem_cons_self
      · exact .inl h
    · exact .inr (List.mem_cons_of_mem _ h)

theorem nodup_ofList (entries : List (String × α)) : (ofList entries).keys.Nodup :=
  @nodup_setAll α ∅ List.nodup_nil entries

theorem ofList_concat (entries : List (String × α)) (entry : String × α) :
    ofList (entries ++ [entry]) = (ofList entries).set entry.1 entry.2 := by
  simp [ofList, setAll]

theorem keys_ofList (entries : List (String × α)) :
    (ofList entries).keys = (entries.map Prod.fst).eraseDups := by
  induction entries using List.reverseRecOn with
  | nil => rfl
  | append_singleton entries entry ih =>
    rw [ofList_concat, keys_set, ih, List.map_append, List.map_singleton, eraseDups_concat]
    simp only [List.mem_eraseDups]

theorem get?_ofList (entries : List (String × α)) (key : String) :
    (ofList entries).get? key = entries.reverse.lookup key := by
  induction entries using List.reverseRecOn with
  | nil => rfl
  | append_singleton entries entry ih =>
    obtain ⟨name, value⟩ := entry
    rw [ofList_concat, get?_set, ih, List.reverse_append, List.reverse_singleton, List.singleton_append]
    by_cases hk : key = name
    · simp [hk]
    · rw [if_neg hk, lookup_cons_ne hk]

theorem mem_ofList {entries : List (String × α)} {entry : String × α}
    (h : entry ∈ (ofList entries).entries) : entry ∈ entries :=
  (mem_setAll h).resolve_left List.not_mem_nil

theorem setAll_of_nodup {entries : List (String × α)}
    (h : (fs.entries ++ entries).map Prod.fst |>.Nodup) :
    fs.setAll entries = ⟨fs.entries ++ entries⟩ := by
  induction entries generalizing fs with
  | nil => simp [setAll]
  | cons entry entries ih =>
    have hk : entry.1 ∉ fs.keys := by
      intro hm
      rw [List.map_append, List.nodup_append] at h
      exact h.2.2 _ hm _ (by simp) rfl
    have hs : fs.set entry.1 entry.2 = ⟨fs.entries ++ [entry]⟩ := by
      simp [set, hk]
    have := @ih ⟨fs.entries ++ [entry]⟩ (by simpa using h)
    rw [setAll, List.foldl_cons, hs]
    simpa [setAll] using this

theorem ofList_of_nodup {entries : List (String × α)} (h : (entries.map Prod.fst).Nodup) :
    ofList entries = ⟨entries⟩ :=
  @setAll_of_nodup α ∅ entries h

theorem mem_of_get? (h : fs.get? key = some value) : (key, value) ∈ fs.entries := by
  obtain ⟨front, back, he, -⟩ := List.lookup_eq_some_iff.mp h
  simp [he]

theorem get?_eq_some_iff (h : fs.keys.Nodup) :
    fs.get? key = some value ↔ (key, value) ∈ fs.entries := by
  refine ⟨mem_of_get?, fun hm => ?_⟩
  obtain ⟨front, back, he⟩ := List.append_of_mem hm
  refine List.lookup_eq_some_iff.mpr ⟨front, back, he, fun entry hf => ?_⟩
  simp only [keys, he, List.map_append, List.nodup_append] at h
  have := h.2.2 entry.1 (List.mem_map_of_mem hf) key (by simp)
  simpa using this.symm

theorem get?_ofList_of_perm {entries entries' : List (String × α)} (hn : (entries.map Prod.fst).Nodup)
    (h : entries'.Perm entries) (key : String) : (ofList entries').get? key = entries.lookup key := by
  have hn' : (entries'.map Prod.fst).Nodup := (h.map Prod.fst).nodup_iff.mpr hn
  rw [ofList_of_nodup hn']
  ext value
  rw [get?_eq_some_iff hn', h.mem_iff, ← @get?_eq_some_iff _ ⟨entries⟩ _ _ hn, get?]

theorem lookup_map {β : Type} (f : α → β) (entries : List (String × α)) (key : String) :
    (entries.map fun entry => (entry.1, f entry.2)).lookup key = (entries.lookup key).map f := by
  induction entries with
  | nil => rfl
  | cons entry entries ih =>
    obtain ⟨name, value⟩ := entry
    by_cases hk : key = name
    · simp [hk]
    · rw [List.map_cons, lookup_cons_ne hk, lookup_cons_ne hk, ih]

theorem entries_erase (fs : Fields α) (key : String) :
    (fs.erase key).entries = fs.entries.eraseP (·.1 == key) := rfl

theorem mem_of_mem_erase {entry : String × α} (h : entry ∈ (fs.erase key).entries) :
    entry ∈ fs.entries :=
  List.mem_of_mem_eraseP h

theorem nodup_erase (h : fs.keys.Nodup) (key : String) : (fs.erase key).keys.Nodup :=
  h.sublist (List.eraseP_sublist.map Prod.fst)

theorem not_mem_erase (h : fs.keys.Nodup) : (key, value) ∉ (fs.erase key).entries := by
  intro hm
  obtain ⟨entries⟩ := fs
  induction entries with
  | nil => simp [erase] at hm
  | cons entry entries ih =>
    simp only [keys, List.map_cons, List.nodup_cons, List.mem_map, not_exists, not_and] at h
    by_cases he : entry.1 = key
    · rw [entries_erase, List.eraseP_cons_of_pos (by simpa using he)] at hm
      exact h.1 _ hm he.symm
    · rw [entries_erase, List.eraseP_cons_of_neg (by simpa using he)] at hm
      rcases List.mem_cons.mp hm with rfl | hm
      · exact he rfl
      · exact ih h.2 hm

theorem erase_append {front back : List (String × α)} (h : ∀ entry ∈ front, entry.1 ≠ key) :
    (⟨front ++ (key, value) :: back⟩ : Fields α).erase key = ⟨front ++ back⟩ := by
  rw [erase, List.eraseP_append_right _ (by simpa using h), List.eraseP_cons_of_pos (by simp)]

theorem nodup_insert {front back : List (String × α)} (h : ((front ++ back).map Prod.fst).Nodup)
    (hk : key ∉ (front ++ back).map Prod.fst) (value : α) :
    ((front ++ (key, value) :: back).map Prod.fst).Nodup := by
  rw [List.map_append, List.map_cons, List.nodup_middle, ← List.map_append]
  exact List.nodup_cons.mpr ⟨hk, h⟩

/-- The same keys in the same order, with values that are related. -/
def Alike {β : Type} (R : α → β → Prop) (fs : Fields α) (gs : Fields β) : Prop :=
  List.Forall₂ (fun x y => x.1 = y.1 ∧ R x.2 y.2) fs.entries gs.entries

namespace Alike

variable {β : Type} {R : α → β → Prop} {gs : Fields β}

theorem refl {S : α → α → Prop} (h : ∀ x, S x x) (fs : Fields α) : Alike S fs fs :=
  List.forall₂_same.mpr fun x _ => ⟨rfl, h x.2⟩

theorem empty : Alike R ∅ ∅ := .nil

theorem keys_eq (h : Alike R fs gs) : fs.keys = gs.keys := by
  obtain ⟨xs⟩ := fs
  obtain ⟨ys⟩ := gs
  simp only [Alike, keys] at h ⊢
  induction h with
  | nil => rfl
  | cons hxy _ ih => rw [List.map_cons, List.map_cons, hxy.1, ih]

theorem set (h : Alike R fs gs) (key : String) {x : α} {y : β} (hxy : R x y) :
    Alike R (fs.set key x) (gs.set key y) := by
  unfold Fields.set
  rw [h.keys_eq]
  split
  · refine List.forall₂_map_left_iff.mpr (List.forall₂_map_right_iff.mpr (h.imp fun a b hab => ?_))
    rw [hab.1]
    split
    · exact ⟨rfl, hxy⟩
    · exact hab
  · exact List.rel_append h (.cons ⟨rfl, hxy⟩ .nil)

theorem setAll (h : Alike R fs gs) {xs : List (String × α)} {ys : List (String × β)}
    (hxy : List.Forall₂ (fun x y => x.1 = y.1 ∧ R x.2 y.2) xs ys) : Alike R (fs.setAll xs) (gs.setAll ys) := by
  induction hxy generalizing fs gs with
  | nil => exact h
  | @cons x y xs ys hxy _ ih =>
    have := ih (h.set x.1 hxy.2)
    rw [hxy.1] at this
    rwa [Fields.setAll, List.foldl_cons, hxy.1]

theorem ofList {xs : List (String × α)} {ys : List (String × β)}
    (hxy : List.Forall₂ (fun x y => x.1 = y.1 ∧ R x.2 y.2) xs ys) :
    Alike R (Fields.ofList xs) (Fields.ofList ys) := empty.setAll hxy

theorem extend (h : Alike R fs gs) {fs' : Fields α} {gs' : Fields β} (h' : Alike R fs' gs') :
    Alike R (fs.extend fs') (gs.extend gs') := h.setAll h'

theorem erase (h : Alike R fs gs) (key : String) : Alike R (fs.erase key) (gs.erase key) := by
  obtain ⟨xs⟩ := fs
  obtain ⟨ys⟩ := gs
  simp only [Alike, Fields.erase] at h ⊢
  induction h with
  | nil => exact .nil
  | @cons x y xs ys hxy hmore ih =>
    by_cases hk : x.1 = key
    · rwa [List.eraseP_cons_of_pos (by simpa using hk), List.eraseP_cons_of_pos (by simpa [← hxy.1] using hk)]
    · rw [List.eraseP_cons_of_neg (by simpa using hk), List.eraseP_cons_of_neg (by simpa [← hxy.1] using hk)]
      exact .cons hxy ih

theorem get? (h : Alike R fs gs) (key : String) : Option.Rel R (fs.get? key) (gs.get? key) := by
  obtain ⟨xs⟩ := fs
  obtain ⟨ys⟩ := gs
  simp only [Alike, Fields.get?] at h ⊢
  induction h with
  | nil => exact .none
  | @cons x y xs ys hxy _ ih =>
    obtain ⟨key', x⟩ := x
    obtain ⟨_, y⟩ := y
    obtain ⟨rfl, hv⟩ := hxy
    rw [List.lookup_cons, List.lookup_cons]
    cases key == key' with
    | true => exact .some hv
    | false => exact ih

end Alike

end Fields

end WidgetJsx
