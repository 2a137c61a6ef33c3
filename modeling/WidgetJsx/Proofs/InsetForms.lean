import WidgetJsx.Proofs.Spelled
import WidgetJsx.Style.Edge
import WidgetJsx.Style.Insets

/-! Forms of insets and of corners that say the same. Each form has its own keys or places for its arguments;
an argument that is no number leaves the same sides out in all of them. -/

namespace WidgetJsx.Style

open Construction Expression Text

section

variable {name : String} {arguments : List String} {c : Construction}

theorem padding_of_read (hn : IsConstructor name) (h : read (spelled name arguments) = .ok c) :
    padding (spelled name arguments) = constructedInsets c := by
  have hzero : spelled name arguments ≠ "EdgeInsets.zero" ∧
      spelled name arguments ≠ "EdgeInsetsDirectional.zero" :=
    ⟨spelled_ne (by decide) name arguments, spelled_ne (by decide) name arguments⟩
  simp only [padding, trimmed_spelled hn, hzero.1, hzero.2, or_self, if_false, h]

theorem corners_of_read (hn : IsConstructor name) (h : read (spelled name arguments) = .ok c) :
    corners (spelled name arguments) = constructedCorners c := by
  have hzero : spelled name arguments ≠ "BorderRadius.zero" := spelled_ne (by decide) name arguments
  simp only [corners, trimmed_spelled hn, hzero, if_false, h]

theorem radius?_of_read (h : read (spelled name arguments) = .ok c) (hc : c.name = "Radius.circular") :
    radius? (.construction (spelled name arguments)) = c.positional.head? >>= Argument.literal? := by
  have hzero : spelled name arguments ≠ "Radius.zero" := spelled_ne (by decide) name arguments
  simp only [radius?, Argument.text?, Option.bind_eq_bind, Option.bind_some, hzero, if_false, h, hc, if_true]

end

theorem perm_ofNumbers {entries entries' : List (String × Option Binary64)}
    (hn : (entries.map Prod.fst).Nodup) (h : entries.Perm entries') :
    (ofNumbers entries).entries.Perm (ofNumbers entries').entries := by
  have hsublist (entries : List (String × Option Binary64)) :
      ((entries.filterMap fun entry => entry.2.map fun x => (entry.1, Value.number x)).map Prod.fst).Sublist
        (entries.map Prod.fst) := by
    induction entries with
    | nil => exact .slnil
    | cons entry entries ih =>
      obtain ⟨key, _ | x⟩ := entry
      · exact ih.cons key
      · exact ih.cons_cons key
  have hn' : (entries'.map Prod.fst).Nodup := (h.map Prod.fst).nodup_iff.mp hn
  rw [ofNumbers, ofNumbers, Fields.ofList_of_nodup (hn.sublist (hsublist entries)),
    Fields.ofList_of_nodup (hn'.sublist (hsublist entries'))]
  exact h.filterMap _

section

variable {fields : List (String × String)} {arguments : List String} {value : String → Argument Widget}

/-- What an argument with a key is read as. -/
abbrev given (fields : List (String × String)) (value : String → Argument Widget) (key : String) :
    Option (Argument Widget) := (fields.lookup key).map value

variable (hv : ∀ field ∈ fields, (value field.2).Plain field.2.toList)
  (hk : AreKeys (fields.map Prod.fst))
  (hperm : arguments.Perm (fields.map fun field => keyed field.1 field.2))

include hv hk hperm

theorem padding_keyed {name : String} (hc : IsConstructor name) {sides : List (String × String)}
    (hsides : ∀ c : Construction, c.name = name → constructedInsets c = namedSides c sides)
    (hfits : Fits (spelled name arguments)) : padding (spelled name arguments) =
      .ofNumbers (sides.map fun side => (side.2, given fields value side.1 >>= Argument.literal?)) := by
  obtain ⟨c, hread, hname, hgiven⟩ := read_keyed hc hk hv hperm hfits
  rw [padding_of_read hc hread, hsides c hname, namedSides]
  simp only [hgiven]

theorem corners_keyed {name : String} (hc : IsConstructor name) {places : List (String × String)}
    (hplaces : ∀ c : Construction, c.name = name → constructedCorners c = namedCorners c places)
    (hfits : Fits (spelled name arguments)) : corners (spelled name arguments) =
      .each (.ofNumbers (places.map fun place =>
        ("border" ++ place.2 ++ "Radius", given fields value place.1 >>= radius?))) := by
  obtain ⟨c, hread, hname, hgiven⟩ := read_keyed hc hk hv hperm hfits
  rw [corners_of_read hc hread, hplaces c hname, namedCorners]
  simp only [hgiven]

end

theorem fits_of_mem {text name : String} {arguments : List String} (h : text ∈ arguments)
    (hfits : Fits (spelled name arguments)) : Fits text :=
  (utf8ByteSize_le_of_isInfix (isInfix_spelled h name)).trans hfits

theorem fits_of_keyed {key text name : String} {arguments : List String} (h : keyed key text ∈ arguments)
    (hfits : Fits (spelled name arguments)) : Fits text := by
  have hinfix : text.toList <:+: (keyed key text).toList := by
    rw [keyed, String.toList_append]
    exact (List.suffix_append _ _).isInfix
  exact (utf8ByteSize_le_of_isInfix hinfix).trans (fits_of_mem h hfits)

/-- The number that a word is, where it is an argument. -/
def wordNumber? (word : String) : Option Binary64 := (Argument.ofWord word).literal?

/-- A round corner as an argument. -/
def circle (radius : String) : String := spelled "Radius.circular" [radius]

open Argument in
section

variable {arguments : List String}

theorem padding_symmetric {vertical horizontal : String} (hv : IsWord vertical) (hh : IsWord horizontal)
    (hperm : arguments.Perm [keyed "vertical" vertical, keyed "horizontal" horizontal])
    (hfits : Fits (spelled "EdgeInsets.symmetric" arguments)) :
    padding (spelled "EdgeInsets.symmetric" arguments) =
      .ofNumbers [("paddingTop", wordNumber? vertical), ("paddingBottom", wordNumber? vertical),
        ("paddingLeft", wordNumber? horizontal), ("paddingRight", wordNumber? horizontal)] := by
  have hkeys : AreKeys ["vertical", "horizontal"] := by decide
  have hplain : ∀ field ∈ [("vertical", vertical), ("horizontal", horizontal)],
      (ofWord field.2).Plain field.2.toList := by
    simpa using ⟨plain_ofWord hv, plain_ofWord hh⟩
  exact padding_keyed hplain hkeys hperm (by decide) (fun ⟨_, _, _⟩ he => by cases he; rfl) hfits

theorem padding_only {top bottom left right : String} (ht : IsWord top) (hb : IsWord bottom)
    (hl : IsWord left) (hr : IsWord right)
    (hperm : arguments.Perm
      [keyed "top" top, keyed "bottom" bottom, keyed "left" left, keyed "right" right])
    (hfits : Fits (spelled "EdgeInsets.only" arguments)) : padding (spelled "EdgeInsets.only" arguments) =
      .ofNumbers [("paddingTop", wordNumber? top), ("paddingBottom", wordNumber? bottom),
        ("paddingLeft", wordNumber? left), ("paddingRight", wordNumber? right)] := by
  have hkeys : AreKeys ["top", "bottom", "left", "right"] := by decide
  have hplain : ∀ field ∈ [("top", top), ("bottom", bottom), ("left", left), ("right", right)],
      (ofWord field.2).Plain field.2.toList := by
    simpa using ⟨plain_ofWord ht, plain_ofWord hb, plain_ofWord hl, plain_ofWord hr⟩
  exact padding_keyed hplain hkeys hperm (by decide) (fun ⟨_, _, _⟩ he => by cases he; rfl) hfits

theorem padding_fromLTRB {left top right bottom : String}
    (h : ∀ word ∈ [left, top, right, bottom], IsWord word)
    (hfits : Fits (spelled "EdgeInsets.fromLTRB" [left, top, right, bottom])) :
    padding (spelled "EdgeInsets.fromLTRB" [left, top, right, bottom]) =
      .ofNumbers [("paddingLeft", wordNumber? left), ("paddingTop", wordNumber? top),
        ("paddingRight", wordNumber? right), ("paddingBottom", wordNumber? bottom)] := by
  have hread := read_positional (by decide) (fun word hm => plain_ofWord (h word hm)) hfits
  rw [padding_of_read (by decide) hread]
  rfl

theorem radius_circle {radius : String} (h : IsWord radius) (hfits : Fits (circle radius)) :
    radius? (.construction (circle radius)) = wordNumber? radius := by
  have hread := read_positional (by decide) (List.forall_mem_singleton.mpr (plain_ofWord h)) hfits
  exact radius?_of_read hread rfl

theorem plain_circle {radius : String} (h : IsWord radius) :
    (Argument.construction (circle radius)).Plain (circle radius).toList :=
  plain_spelled (by decide) (forall₂_positional (List.forall_mem_singleton.mpr (plain_ofWord h)))

theorem corners_circular {radius : String} (h : IsWord radius)
    (hfits : Fits (spelled "BorderRadius.circular" [radius])) :
    corners (spelled "BorderRadius.circular" [radius]) = .uniform ((wordNumber? radius).getD .zero) := by
  have hread := read_positional (by decide) (List.forall_mem_singleton.mpr (plain_ofWord h)) hfits
  rw [corners_of_read (by decide) hread]
  rfl

theorem corners_all {radius : String} (h : IsWord radius)
    (hfits : Fits (spelled "BorderRadius.all" [circle radius])) :
    corners (spelled "BorderRadius.all" [circle radius]) = .uniform ((wordNumber? radius).getD .zero) := by
  have hplain : ∀ text ∈ [circle radius], (Argument.construction text).Plain text.toList :=
    List.forall_mem_singleton.mpr (plain_circle h)
  have hread := read_positional (by decide) hplain hfits
  rw [corners_of_read (by decide) hread, ← radius_circle h (fits_of_mem List.mem_cons_self hfits)]
  rfl

theorem corners_circles {name : String} (hc : IsConstructor name) {places fields : List (String × String)}
    (hplaces : ∀ c : Construction, c.name = name → constructedCorners c = namedCorners c places)
    (hw : ∀ field ∈ fields, IsWord field.2) (hk : AreKeys (fields.map Prod.fst))
    (hfits : Fits (spelled name (fields.map fun field => keyed field.1 (circle field.2)))) :
    corners (spelled name (fields.map fun field => keyed field.1 (circle field.2))) =
      .each (.ofNumbers (places.map fun place =>
        ("border" ++ place.2 ++ "Radius", fields.lookup place.1 >>= wordNumber?))) := by
  have hplain : ∀ field ∈ fields.map fun field => (field.1, circle field.2),
      (Argument.construction field.2).Plain field.2.toList := by
    intro field hf
    obtain ⟨given, hg, rfl⟩ := List.mem_map.mp hf
    exact plain_circle (hw given hg)
  have hkeys : AreKeys ((fields.map fun field => (field.1, circle field.2)).map Prod.fst) := by
    rwa [List.map_map]
  have hradius (key : String) :
      given (fields.map fun field => (field.1, circle field.2)) .construction key >>= radius? =
        fields.lookup key >>= wordNumber? := by
    rw [given, Fields.lookup_map]
    cases hl : fields.lookup key with
    | none => rfl
    | some radius =>
      have hget : (⟨fields⟩ : Fields String).get? key = some radius := hl
      have hm : (key, radius) ∈ fields := Fields.mem_of_get? hget
      have hmem : keyed key (circle radius) ∈ fields.map fun field => keyed field.1 (circle field.2) :=
        List.mem_map_of_mem hm
      exact radius_circle (hw _ hm) (fits_of_keyed hmem hfits)
  have hperm : (fields.map fun field => keyed field.1 (circle field.2)).Perm
      ((fields.map fun field => (field.1, circle field.2)).map fun field => keyed field.1 field.2) := by
    rw [List.map_map]
    exact .refl _
  rw [corners_keyed hplain hkeys hperm hc hplaces hfits]
  simp only [hradius]

end

theorem perm_sides {α : Type} (left top right bottom : α) :
    [left, top, right, bottom].Perm [top, bottom, left, right] :=
  (List.Perm.swap top left _).trans ((@List.perm_append_comm _ [left, right] [bottom]).cons top)

open Argument in
/-- Insets and corners are the same in whatever form they are given. -/
theorem inset_forms_agree {a b c d : String} (h : ∀ word ∈ [a, b, c, d], IsWord word) :
    (∀ symmetric only : List String,
      symmetric.Perm [keyed "vertical" a, keyed "horizontal" b] →
      only.Perm [keyed "top" a, keyed "bottom" a, keyed "left" b, keyed "right" b] →
      Fits (spelled "EdgeInsets.symmetric" symmetric) → Fits (spelled "EdgeInsets.only" only) →
      padding (spelled "EdgeInsets.symmetric" symmetric) = padding (spelled "EdgeInsets.only" only) ∧
      padding (spelled "EdgeInsets.only" only) =
        .ofNumbers [("paddingTop", wordNumber? a), ("paddingBottom", wordNumber? a),
          ("paddingLeft", wordNumber? b), ("paddingRight", wordNumber? b)]) ∧
    (let ltrb := spelled "EdgeInsets.fromLTRB" [a, b, c, d]
      let only := spelled "EdgeInsets.only" [keyed "left" a, keyed "top" b, keyed "right" c, keyed "bottom" d]
      Fits ltrb → Fits only → (padding ltrb).entries.Perm (padding only).entries ∧
        padding ltrb = .ofNumbers [("paddingLeft", wordNumber? a), ("paddingTop", wordNumber? b),
          ("paddingRight", wordNumber? c), ("paddingBottom", wordNumber? d)]) ∧
    (let all := spelled "BorderRadius.all" [circle a]
      let circular := spelled "BorderRadius.circular" [a]
      Fits all → Fits circular → corners all = corners circular ∧
        corners circular = .uniform ((wordNumber? a).getD .zero)) ∧
    (let vertical := spelled "BorderRadius.vertical" [keyed "top" (circle a), keyed "bottom" (circle b)]
      let only := spelled "BorderRadius.only" [keyed "topLeft" (circle a), keyed "topRight" (circle a),
        keyed "bottomLeft" (circle b), keyed "bottomRight" (circle b)]
      Fits vertical → Fits only → corners vertical = corners only ∧ corners only =
        .each (.ofNumbers [("borderTopLeftRadius", wordNumber? a), ("borderTopRightRadius", wordNumber? a),
          ("borderBottomLeftRadius", wordNumber? b), ("borderBottomRightRadius", wordNumber? b)])) ∧
    (let horizontal := spelled "BorderRadius.horizontal" [keyed "left" (circle a), keyed "right" (circle b)]
      let only := spelled "BorderRadius.only" [keyed "topLeft" (circle a), keyed "bottomLeft" (circle a),
        keyed "topRight" (circle b), keyed "bottomRight" (circle b)]
      Fits horizontal → Fits only → ∃ style style', corners horizontal = .each style ∧
        corners only = .each style' ∧ style.entries.Perm style'.entries ∧
        style' = .ofNumbers [("borderTopLeftRadius", wordNumber? a), ("borderTopRightRadius", wordNumber? b),
          ("borderBottomLeftRadius", wordNumber? a), ("borderBottomRightRadius", wordNumber? b)]) := by
  have ha := h a (by simp)
  have hb := h b (by simp)
  have hcorners {fields : List (String × String)} (hf : ∀ field ∈ fields, field.2 = a ∨ field.2 = b) :
      ∀ field ∈ fields, IsWord field.2 := by
    intro field hm
    rcases hf field hm with he | he
    · exact he ▸ ha
    · exact he ▸ hb
  refine ⟨fun symmetric only hs ho hsfits hofits => ?_, fun hlfits hofits => ?_, fun hafits hcfits => ?_,
    fun hvfits hofits => ?_, fun hhfits hofits => ?_⟩
  · have honly := padding_only ha ha hb hb ho hofits
    exact ⟨(padding_symmetric ha hb hs hsfits).trans honly.symm, honly⟩
  · have hltrb := padding_fromLTRB h hlfits
    have honly := padding_only hb (h d (by simp)) ha (h c (by simp)) (perm_sides _ _ _ _) hofits
    refine ⟨?_, hltrb⟩
    rw [hltrb, honly]
    exact perm_ofNumbers (by decide : ["paddingLeft", "paddingTop", "paddingRight", "paddingBottom"].Nodup)
      (perm_sides _ _ _ _)
  · have hcircular := corners_circular ha hcfits
    exact ⟨(corners_all ha hafits).trans hcircular.symm, hcircular⟩
  · have hvertical := @corners_circles "BorderRadius.vertical" (by decide) _ [("top", a), ("bottom", b)]
      (fun ⟨_, _, _⟩ he => by cases he; rfl) (hcorners (by simp))
      (by decide : AreKeys ["top", "bottom"]) hvfits
    have honly := @corners_circles "BorderRadius.only" (by decide) _
      [("topLeft", a), ("topRight", a), ("bottomLeft", b), ("bottomRight", b)]
      (fun ⟨_, _, _⟩ he => by cases he; rfl) (hcorners (by simp))
      (by decide : AreKeys ["topLeft", "topRight", "bottomLeft", "bottomRight"]) hofits
    exact ⟨hvertical.trans honly.symm, honly⟩
  · have hhorizontal := @corners_circles "BorderRadius.horizontal" (by decide) _ [("left", a), ("right", b)]
      (fun ⟨_, _, _⟩ he => by cases he; rfl) (hcorners (by simp))
      (by decide : AreKeys ["left", "right"]) hhfits
    have honly := @corners_circles "BorderRadius.only" (by decide) _
      [("topLeft", a), ("bottomLeft", a), ("topRight", b), ("bottomRight", b)]
      (fun ⟨_, _, _⟩ he => by cases he; rfl) (hcorners (by simp))
      (by decide : AreKeys ["topLeft", "bottomLeft", "topRight", "bottomRight"]) hofits
    refine ⟨_, _, hhorizontal, honly, ?_, rfl⟩
    exact perm_ofNumbers (by decide : ["borderTopLeftRadius", "borderBottomLeftRadius",
      "borderTopRightRadius", "borderBottomRightRadius"].Nodup) ((List.Perm.swap _ _ _).cons _)

open Argument in
/-- A name for an argument leaves its sides out in every form. -/
theorem inset_forms_agree_named : (∀ word ∈ ["8", "gap", "-2.5", "true"], IsWord word) ∧
    padding "EdgeInsets.symmetric(horizontal: gap, vertical: 8)" =
      padding "EdgeInsets.only(left: gap, bottom: 8, top: 8, right: gap)" ∧
    padding "EdgeInsets.only(left: gap, bottom: 8, top: 8, right: gap)" =
      .ofNumbers [("paddingTop", some (.ofInt 8)), ("paddingBottom", some (.ofInt 8))] ∧
    (padding "EdgeInsets.fromLTRB(8, gap, -2.5, true)").entries.Perm
      (padding "EdgeInsets.only(left: 8, top: gap, right: -2.5, bottom: true)").entries ∧
    corners (spelled "BorderRadius.all" [circle "8"]) = corners (spelled "BorderRadius.circular" ["8"]) ∧
    corners (spelled "BorderRadius.circular" ["8"]) = .uniform (.ofInt 8) ∧
    corners (spelled "BorderRadius.vertical" [keyed "top" (circle "8"), keyed "bottom" (circle "gap")]) =
      corners (spelled "BorderRadius.only" [keyed "topLeft" (circle "8"), keyed "topRight" (circle "8"),
        keyed "bottomLeft" (circle "gap"), keyed "bottomRight" (circle "gap")]) ∧
    ∃ style style',
      corners (spelled "BorderRadius.horizontal" [keyed "left" (circle "8"), keyed "right" (circle "gap")]) =
        .each style ∧
      corners (spelled "BorderRadius.only" [keyed "topLeft" (circle "8"), keyed "bottomLeft" (circle "8"),
        keyed "topRight" (circle "gap"), keyed "bottomRight" (circle "gap")]) = .each style' ∧
      style.entries.Perm style'.entries := by
  have hwords : ∀ word ∈ ["8", "gap", "-2.5", "true"], IsWord word := by
    have hwhole : IsNumber "8".toList := @IsNumber.whole [] ['8'] (.inl rfl) ⟨by simp, by simp⟩
    have hpoint : IsNumber "-2.5".toList :=
      @IsNumber.decimal ['-'] ['2'] ['5'] (.inr rfl) ⟨by simp, by simp⟩ ⟨by simp, by simp⟩
    have hnames : IsName "gap".toList ∧ IsName "true".toList := by decide
    simpa using ⟨.inl hwhole, .inr hnames.1, .inl hpoint, .inr hnames.2⟩
  have height : wordNumber? "8" = some (.ofInt 8) := by decide +kernel
  have hgap : wordNumber? "gap" = none := by decide +kernel
  obtain ⟨hsides, hltrb, hall, hvertical, hhorizontal⟩ := inset_forms_agree hwords
  have hsides := hsides ["horizontal: gap", "vertical: 8"] ["left: gap", "bottom: 8", "top: 8", "right: gap"]
    (by decide) (by decide) (by decide +kernel) (by decide +kernel)
  have hall := hall (by decide +kernel) (by decide +kernel)
  obtain ⟨style, style', hh, ho, hperm, -⟩ := hhorizontal (by decide +kernel) (by decide +kernel)
  rw [height, hgap] at hsides
  rw [height, Option.getD_some] at hall
  exact ⟨hwords, hsides.1, hsides.2, (hltrb (by decide +kernel) (by decide +kernel)).1, hall.1, hall.2,
    (hvertical (by decide +kernel) (by decide +kernel)).1, style, style', hh, ho, hperm⟩

end WidgetJsx.Style
