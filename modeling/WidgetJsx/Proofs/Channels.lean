import WidgetJsx.Proofs.ColorRange
import WidgetJsx.Proofs.NumberValue
import WidgetJsx.Proofs.Spelled

/-! Colors whose parts are given one by one. A part is rounded and clamped to a byte: of whole numbers that
is the number itself, or the nearer end of the range, however large they are. -/

namespace WidgetJsx

open Expression Text

namespace Binary64

variable {m n : Nat}

/-- A whole number does not get smaller than another one that is a magnitude. -/
theorem le_steps_nearestRank (hm : m < 2 * period) (hn : m ≤ n) : m * one ≤ steps (nearestRank n 1) := by
  obtain ⟨rank, hrank⟩ := exists_steps_eq hm
  have hle : m * one ≤ n * one := Nat.mul_le_mul_right one hn
  have hnear := @dist_nearestRank_le n 1 Nat.one_pos rank
  rw [Nat.mul_one, Nat.mul_one, hrank] at hnear
  unfold Nat.dist at hnear
  omega

theorem toByte_ofRatio_whole (h : n < overflow) (negative : Bool) :
    (ofRatio negative n 1).toByte = if negative then 0 else min 255 n := by
  have hlt : nearestRank n 1 < ranks := (nearestRank_lt_ranks_iff Nat.one_pos).mpr (by rwa [Nat.mul_one])
  have hone : 0 < 2 * one := Nat.mul_pos Nat.two_pos one_pos
  rw [ofRatio_of_lt negative hlt, toByte]
  cases negative with
  | true => rw [if_pos rfl, if_pos rfl]
  | false =>
    rw [if_neg Bool.false_ne_true, if_neg Bool.false_ne_true]
    by_cases hn : n ≤ 255
    · have hperiod : 255 < 2 * period := by decide +kernel
      have hhalf : one / (2 * one) = 0 := Nat.div_eq_of_lt (by have := one_pos; omega)
      have hscaled : 2 * (n * one) + one = one + 2 * one * n := by ring
      rw [steps_nearestRank_whole (by omega), hscaled, Nat.add_mul_div_left _ _ hone, hhalf, Nat.zero_add]
    · -- However large the number is, it is not rounded below 255, which is a magnitude.
      have hlarge : 255 * one ≤ steps (nearestRank n 1) := le_steps_nearestRank (by decide +kernel) (by omega)
      have hbyte : 255 ≤ (2 * steps (nearestRank n 1) + one) / (2 * one) :=
        (Nat.le_div_iff_mul_le hone).mpr (by omega)
      rw [Nat.min_eq_left hbyte, Nat.min_eq_left (by omega)]

end Binary64

namespace Expression

/-- The text is a whole number, with a minus sign or without. -/
inductive Denotes : String → Int → Prop
  | whole {ds : List Char} : DigitsOf Char.isDigit ds → Denotes (String.ofList ds) (digitsValue 10 ds)
  | minus {ds : List Char} : DigitsOf Char.isDigit ds →
      Denotes (String.ofList ('-' :: ds)) (-digitsValue 10 ds)

variable {text : String} {n : Int}

theorem Denotes.exists_digits (h : Denotes text n) : ∃ (negative : Bool) (ds : List Char),
    DigitsOf Char.isDigit ds ∧ text.toList = (if negative then ['-'] else []) ++ ds ∧
      n = if negative then -(digitsValue 10 ds : Int) else digitsValue 10 ds := by
  cases h with
  | @whole ds hd => exact ⟨false, ds, hd, String.toList_ofList, rfl⟩
  | @minus ds hd => exact ⟨true, ds, hd, String.toList_ofList, rfl⟩

theorem Denotes.isNumber (h : Denotes text n) : IsNumber text.toList := by
  obtain ⟨negative, ds, hd, ht, -⟩ := h.exists_digits
  rw [ht]
  cases negative with
  | false => exact .whole (.inl rfl) hd
  | true => exact .whole (.inr rfl) hd

end Expression

namespace Style

open Argument Construction

variable {text : String} {n : Int}

theorem numberIn?_of_denotes (h : Denotes text n) (hn : n.natAbs < Binary64.overflow) :
    ∃ x, numberIn? text = some x ∧ x.toByte = min 255 n.toNat := by
  obtain ⟨negative, ds, hd, ht, he⟩ := h.exists_digits
  have habs : n.natAbs = digitsValue 10 ds := by
    rw [he]
    cases negative <;> simp
  have hnat : (if negative then 0 else min 255 (digitsValue 10 ds)) = min 255 n.toNat := by
    rw [he]
    cases negative <;> simp
  rw [habs] at hn
  have hnearest : (Decimal.ofList ds).nearest negative = .ofRatio negative (digitsValue 10 ds) 1 := by
    have hratio : Decimal.ratio ⟨Decimal.ofDigits ds, 0⟩ = (Decimal.ofDigits ds, 1) :=
      Decimal.ratio_places _ 0
    rw [Decimal.nearest_eq_ofRatio, Decimal.ofList_whole hd.all, hratio, digitsValue_eq hd.all]
  have hfinite : (Binary64.ofRatio negative (digitsValue 10 ds) 1).isFinite = true := by
    rw [Binary64.ofRatio_of_lt negative
      ((Binary64.nearestRank_lt_ranks_iff Nat.one_pos).mpr (by rwa [Nat.mul_one]))]
    rfl
  have hread := numberIn?_of_leftmost (ht ▸ leftmostNumber?_signed (.whole hd) negative)
  rw [hnearest, if_pos hfinite] at hread
  exact ⟨_, hread, (Binary64.toByte_ofRatio_whole hn negative).trans hnat⟩

/-- A number up to 255 in base sixteen, in two places. -/
def twoDigits (n : Nat) : List Char :=
  ((Nat.toDigits 16 n).leftpad 2 '0').map Char.toUpper

/-- The color with these parts, each of them brought into the range from 0 to 255. -/
def clampedColor (parts : List Int) : String :=
  String.ofList ('#' :: parts.flatMap fun n => twoDigits (min 255 n.toNat))

/-- The literal that these parts make up, in capitals. -/
def hexLiteral (parts : List Int) : String :=
  String.ofList ('0' :: 'X' :: parts.flatMap fun n => twoDigits n.toNat)

theorem byteDigits_eq {n : Nat} (hn : n ≤ 255) : byteDigits n = twoDigits n := by
  have hall : ∀ k < 256, byteDigits k = twoDigits k := by decide +kernel
  exact hall n (by omega)

/-- The part of a color that a word is, as an argument. -/
def wordChannel? (word : String) : Option Binary64 := (ofWord word).text? >>= numberIn?

theorem wordChannel?_of_isNumber {word : String} (h : IsNumber word.toList) :
    wordChannel? word = numberIn? word := by
  rw [wordChannel?, ofWord_of_isNumber h]
  rfl

theorem wordChannel?_eq_none {word : String} (h : ∀ c ∈ word.toList, c.isDigit = false) :
    wordChannel? word = none := by
  obtain ⟨text, ht, hsub⟩ := text?_ofWord word
  have hleft : leftmostNumber? false text.toList = none :=
    leftmostNumber?_eq_none (fun c hc => h c (hsub.subset hc)) false
  rw [wordChannel?, ht]
  simp [numberIn?, hleft]

theorem mapM_eq_none_of_mem {α β : Type} {f : α → Option β} {l : List α} {a : α} (ha : a ∈ l)
    (h : f a = none) : l.mapM f = none := by
  induction l with
  | nil => cases ha
  | cons b l ih =>
    rw [List.mapM_cons]
    rcases List.mem_cons.mp ha with rfl | ha
    · rw [h]
      rfl
    · rw [ih ha]
      cases f b <;> rfl

theorem not_palette_spelled {name : String} (h : ¬ "Colors.".toList <+: name.toList) (words : List String) :
    ¬ "Colors.".toList <+: (spelled name words).toList := by
  intro hp
  have hopen : '(' ∉ "Colors.".toList := by decide
  have hname : name.toList ++ ['('] <+: (spelled name words).toList := by simp [toList_spelled]
  rcases List.prefix_or_prefix_of_prefix hp hname with hp | hp
  · rcases List.prefix_concat_iff.mp hp with he | hp
    · exact hopen (he ▸ List.mem_concat_self)
    · exact h hp
  · exact hopen (hp.subset List.mem_concat_self)

theorem color_spelled {name : String} (hc : IsConstructor name) (hname : ¬ "Colors.".toList <+: name.toList)
    {words : List String} (hw : ∀ word ∈ words, IsWord word) (hfits : Fits (spelled name words)) :
    color (spelled name words) =
      (constructedColor? ⟨name, words.map ofWord, ∅⟩).getD (spelled name words) := by
  have hprefix : ¬ "Colors.".toList <+: trim (spelled name words).toList := by
    rw [trim_eq_self (trimmed_toList_spelled hc words)]
    exact not_palette_spelled hname words
  have hread := read_positional hc (fun word hm => plain_ofWord (hw word hm)) hfits
  rw [color_of_not_palette hprefix, trimmed_spelled hc words, hread]

/-- The forms in which a color is given by its parts. How opaque it is comes first in one and last in the
other. -/
def channelForms (a r g b o : String) : List String :=
  [spelled "Color.fromARGB" [a, r, g, b], spelled "Color.fromRGBO" [r, g, b, o]]

theorem color_channels {a r g b o form : String} (hw : ∀ word ∈ [a, r, g, b, o], IsWord word)
    (hform : form ∈ channelForms a r g b o) (hfits : Fits form) :
    color form = (([r, g, b].mapM wordChannel?).map channelDigits).getD form := by
  rcases List.mem_pair.mp hform with rfl | rfl
  · have hargb : constructedColor? ⟨"Color.fromARGB", [a, r, g, b].map ofWord, ∅⟩ =
        channelColor? ⟨"Color.fromARGB", [a, r, g, b].map ofWord, ∅⟩ [1, 2, 3] := rfl
    have hargs : ∀ word ∈ [a, r, g, b], IsWord word := fun word hm => hw word (List.mem_append_left [o] hm)
    rw [color_spelled (by decide) (by decide) hargs hfits, hargb, channelColor?_eq]
    rfl
  · have hrgbo : constructedColor? ⟨"Color.fromRGBO", [r, g, b, o].map ofWord, ∅⟩ =
        channelColor? ⟨"Color.fromRGBO", [r, g, b, o].map ofWord, ∅⟩ [0, 1, 2] := rfl
    have hargs : ∀ word ∈ [r, g, b, o], IsWord word := fun word hm => hw word (List.mem_cons_of_mem a hm)
    rw [color_spelled (by decide) (by decide) hargs hfits, hrgbo, channelColor?_eq]
    rfl

/-- Only small letters have capitals in their place. -/
theorem toNat_lt_of_toUpper {c : Char} (h : c.toUpper.toNat < 128) : c.toNat < 128 := by
  by_contra hc
  have hupper : c.toUpper = c := by
    refine dif_neg fun hlower => hc ?_
    have hz : c.toNat ≤ 'z'.toNat := UInt32.le_iff_toNat_le.mp hlower.2
    exact hz.trans_lt (by decide)
  exact hc (hupper ▸ h)

theorem forall_toUpper {P Q : Char → Prop} (hQ : ∀ d, Q d → d.toNat < 128)
    (h : ∀ n < 128, Q (Char.ofNat n).toUpper → P (Char.ofNat n)) {c : Char} (hc : Q c.toUpper) : P c :=
  forall_ascii (P := fun c => Q c.toUpper → P c) h (toNat_lt_of_toUpper (hQ _ hc)) hc

theorem isHexDigit_of_toUpper {c : Char} (h : isHexDigit c.toUpper = true) : isHexDigit c = true :=
  forall_toUpper (Q := fun d => isHexDigit d = true) (P := fun c => isHexDigit c = true)
    (fun _ => isHexDigit_lt) (by decide) h

/-- The digits of a literal in base sixteen, where it is known but for letter case. -/
theorem literal_of_toUpper {text : String} {digits : List Char}
    (h : text.toUpper = String.ofList ('0' :: 'X' :: digits)) (hd : ∀ c ∈ digits, isHexDigit c = true) :
    ∃ x ds, text.toList = '0' :: x :: ds ∧ (x = 'x' ∨ x = 'X') ∧ (∀ c ∈ ds, isHexDigit c = true) ∧
      ds.map Char.toUpper = digits := by
  have hlist : text.toList.map Char.toUpper = '0' :: 'X' :: digits := by
    rw [← String.toList_map, ← String.toUpper, h, String.toList_ofList]
  obtain ⟨z, cs, ht, hz, hcs⟩ := List.map_eq_cons_iff.mp hlist
  obtain ⟨x, ds, rfl, hx, hds⟩ := List.map_eq_cons_iff.mp hcs
  have hzero : z = '0' := forall_toUpper (Q := (· = '0')) (P := (· = '0')) (by simp) (by decide) hz
  have hmark : x = 'x' ∨ x = 'X' :=
    forall_toUpper (Q := (· = 'X')) (P := fun c => c = 'x' ∨ c = 'X') (by simp) (by decide) hx
  refine ⟨x, ds, hzero ▸ ht, hmark, fun c hc => isHexDigit_of_toUpper (hd _ ?_), hds⟩
  exact hds ▸ List.mem_map_of_mem hc

theorem color_literal {text : String} {x : Char} {ds : List Char} (ht : text.toList = '0' :: x :: ds)
    (hx : x = 'x' ∨ x = 'X') (hl : ds.length = 8) (hd : ∀ c ∈ ds, isHexDigit c = true)
    (hfits : Fits (spelled "Color" [text])) :
    color (spelled "Color" [text]) = String.ofList ('#' :: ds.drop 2) := by
  have hnumber : IsNumber text.toList := ht ▸ .hex hx ⟨List.ne_nil_of_length_eq_add_one hl, hd⟩
  have hcolor : constructedColor? ⟨"Color", [text].map ofWord, ∅⟩ =
      (ofWord text).text? >>= opaqueColor? := rfl
  have hvalue : opaqueColor? text = some (String.ofList ('#' :: ds.drop 2)) := by
    rw [opaqueColor?, ht]
    exact if_pos ⟨hx, hl, List.all_eq_true.mpr hd⟩
  rw [color_spelled (by decide) (by decide) (List.forall_mem_singleton.mpr (.inl hnumber)) hfits, hcolor,
    ofWord_of_isNumber hnumber]
  change (opaqueColor? text).getD _ = _
  rw [hvalue, Option.getD_some]

theorem channels_of_denotes {words : List String} {parts : List Int} (h : List.Forall₂ Denotes words parts)
    (hn : ∀ n ∈ parts, n.natAbs < Binary64.overflow) :
    (words.mapM wordChannel?).map channelDigits = some (clampedColor parts) := by
  have hdigits : ∃ channels, words.mapM wordChannel? = some channels ∧
      channels.flatMap (fun x => byteDigits x.toByte) =
        parts.flatMap fun n => twoDigits (min 255 n.toNat) := by
    induction h with
    | nil => exact ⟨[], rfl, rfl⟩
    | @cons word n words parts hword _ ih =>
      obtain ⟨x, hx, hbyte⟩ := numberIn?_of_denotes hword (hn n List.mem_cons_self)
      obtain ⟨channels, hm, hd⟩ := ih fun m hm => hn m (List.mem_cons_of_mem n hm)
      rw [← wordChannel?_of_isNumber hword.isNumber] at hx
      refine ⟨x :: channels, ?_, ?_⟩
      · rw [List.mapM_cons, hx, hm]
        rfl
      · rw [List.flatMap_cons, List.flatMap_cons, hd, hbyte, byteDigits_eq (Nat.min_le_left _ _)]
  obtain ⟨channels, hm, hd⟩ := hdigits
  rw [hm, Option.map_some, channelDigits, hd, clampedColor]

section

variable {parts : List Int} (hrange : ∀ n ∈ parts, 0 ≤ n ∧ n ≤ 255)

include hrange

theorem partDigits_eq :
    (parts.flatMap fun n => twoDigits n.toNat) = parts.flatMap fun n => byteDigits n.toNat :=
  List.flatMap_congr fun n hn => (byteDigits_eq (n := n.toNat) (by have := hrange n hn; omega)).symm

theorem isHexDigit_partDigits : ∀ c ∈ parts.flatMap fun n => twoDigits n.toNat, isHexDigit c = true := by
  intro c hc
  rw [partDigits_eq hrange] at hc
  obtain ⟨n, hn, hc⟩ := List.mem_flatMap.mp hc
  have := hrange n hn
  exact isHexDigit_byteDigits (n := n.toNat) (by omega) hc

theorem length_partDigits : (parts.flatMap fun n => twoDigits n.toNat).length = parts.length * 2 := by
  have hbyte : ∀ n, (byteDigits n).length = 2 := fun _ => rfl
  rw [partDigits_eq hrange]
  simp only [List.length_flatMap, hbyte, List.map_const', List.sum_replicate_nat]

theorem clampedColor_eq :
    clampedColor parts = String.ofList ('#' :: parts.flatMap fun n => twoDigits n.toNat) := by
  have hparts : (parts.flatMap fun n => twoDigits (min 255 n.toNat)) =
      parts.flatMap fun n => twoDigits n.toNat := by
    refine List.flatMap_congr fun n hn => ?_
    have := hrange n hn
    rw [Nat.min_eq_right (by omega)]
  rw [clampedColor, hparts]

end

/-- A literal in whatever letters has the color of its parts, of which the first is left out. -/
theorem color_literal_toUpper {text : String} {first : Int} {parts : List Int}
    (hrange : ∀ n ∈ first :: parts, 0 ≤ n ∧ n ≤ 255) (hl : parts.length = 3)
    (hu : text.toUpper = hexLiteral (first :: parts)) (hfits : Fits (spelled "Color" [text])) :
    (color (spelled "Color" [text])).toUpper = clampedColor parts := by
  have hparts := List.forall_mem_cons.mp hrange
  obtain ⟨x, ds, ht, hx, hd, hds⟩ := literal_of_toUpper hu (isHexDigit_partDigits hrange)
  have hlength : ds.length = 8 := by
    rw [← List.length_map Char.toUpper, hds, length_partDigits hrange, List.length_cons, hl]
  have hfirst : (twoDigits first.toNat).length = 2 := by
    have hlength := length_partDigits (List.forall_mem_singleton.mpr hparts.1)
    rwa [List.flatMap_singleton] at hlength
  have hkept : (ds.drop 2).map Char.toUpper = parts.flatMap fun n => twoDigits n.toNat := by
    rw [List.map_drop, hds, List.flatMap_cons, ← hfirst, List.drop_left]
  rw [color_literal ht hx hlength hd hfits, clampedColor_eq hparts.2, ← hkept, String.toUpper,
    ← String.toList_inj, String.toList_map, String.toList_ofList, String.toList_ofList]
  rfl

/-- A color is the same in whatever form it is given, and its parts are clamped. With a name for a part an
expression is no color. -/
theorem color_forms_agree (a r g b o : String) :
    (∀ alpha red green blue : Int, Denotes a alpha → Denotes r red → Denotes g green → Denotes b blue →
      IsNumber o.toList → (∀ n ∈ [red, green, blue], n.natAbs < Binary64.overflow) →
      ∀ form ∈ channelForms a r g b o, Fits form → color form = clampedColor [red, green, blue] ∧
        ((∀ n ∈ [alpha, red, green, blue], 0 ≤ n ∧ n ≤ 255) → ∀ text : String,
          text.toUpper = hexLiteral [alpha, red, green, blue] → Fits (spelled "Color" [text]) →
          (color (spelled "Color" [text])).toUpper = color form)) ∧
    ((∀ word ∈ [a, r, g, b, o], IsWord word) →
      (∃ word ∈ [r, g, b], IsName word.toList ∧ ∀ c ∈ word.toList, c.isDigit = false) →
      ∀ form ∈ channelForms a r g b o, Fits form → color form = form) := by
  refine ⟨fun alpha red green blue ha hr hg hb ho hn form hform hfits => ?_,
    fun hw ⟨word, hm, _, hd⟩ form hform hfits => ?_⟩
  · have hw : ∀ word ∈ [a, r, g, b, o], IsWord word := by
      simpa [IsWord] using ⟨.inl ha.isNumber, .inl hr.isNumber, .inl hg.isNumber, .inl hb.isNumber, .inl ho⟩
    have hdenotes : List.Forall₂ Denotes [r, g, b] [red, green, blue] := .cons hr (.cons hg (.cons hb .nil))
    have hcolor : color form = clampedColor [red, green, blue] := by
      rw [color_channels hw hform hfits, channels_of_denotes hdenotes hn, Option.getD_some]
    refine ⟨hcolor, fun hrange text hu hlfits => ?_⟩
    rw [hcolor]
    exact color_literal_toUpper hrange rfl hu hlfits
  · rw [color_channels hw hform hfits, mapM_eq_none_of_mem hm (wordChannel?_eq_none hd)]
    rfl

/-- Parts beyond either end of the range, a literal in small letters, and a name for a part. -/
theorem color_forms_agree_clamped :
    color "Color.fromARGB(0, -7, 300, 016)" = "#00FF10" ∧
    color "Color.fromRGBO(-7, 300, 016, 0.5)" = "#00FF10" ∧
    color "Color.fromARGB(128, 33, 150, 243)" = "#2196F3" ∧
    (color "Color(0x802196f3)").toUpper = color "Color.fromARGB(128, 33, 150, 243)" ∧
    color "Color.fromRGBO(33, seed, 243, 0.5)" = "Color.fromRGBO(33, seed, 243, 0.5)" := by
  have hwhole {text : String} {n : Nat} (h : text ≠ "" ∧ text.toList.all Char.isDigit = true ∧
      Decimal.foldDigits 0 text.toList = n) : Denotes text n := by
    obtain ⟨hne, hd, rfl⟩ := h
    have hd := List.all_eq_true.mp hd
    have hdenotes : Denotes (String.ofList text.toList) (digitsValue 10 text.toList) :=
      .whole ⟨mt String.toList_eq_nil_iff.mp hne, hd⟩
    rwa [String.ofList_toList, digitsValue_eq hd, Decimal.ofDigits_eq] at hdenotes
  have hnegative : Denotes "-7" (-7) := @Denotes.minus ['7'] ⟨by simp, by simp⟩
  have hopacity : IsNumber "0.5".toList :=
    @IsNumber.decimal [] ['0'] ['5'] (.inl rfl) ⟨by simp, by simp⟩ ⟨by simp, by simp⟩
  have hwords : ∀ word ∈ ["128", "33", "seed", "243", "0.5"], IsWord word := by
    simpa using ⟨.inl (@hwhole "128" 128 (by decide +kernel)).isNumber,
      .inl (@hwhole "33" 33 (by decide +kernel)).isNumber, .inr (by decide),
      .inl (@hwhole "243" 243 (by decide +kernel)).isNumber, .inl hopacity⟩
  obtain ⟨hclamped, -⟩ := color_forms_agree "0" "-7" "300" "016" "0.5"
  obtain ⟨hliteral, -⟩ := color_forms_agree "128" "33" "150" "243" "0.5"
  obtain ⟨-, hnamed⟩ := color_forms_agree "128" "33" "seed" "243" "0.5"
  have hclamped := hclamped 0 (-7) 300 16 (@hwhole "0" 0 (by decide +kernel)) hnegative
    (@hwhole "300" 300 (by decide +kernel)) (@hwhole "016" 16 (by decide +kernel)) hopacity
    (by decide +kernel)
  have hliteral := hliteral 128 33 150 243 (@hwhole "128" 128 (by decide +kernel))
    (@hwhole "33" 33 (by decide +kernel)) (@hwhole "150" 150 (by decide +kernel))
    (@hwhole "243" 243 (by decide +kernel)) hopacity (by decide +kernel)
    "Color.fromARGB(128, 33, 150, 243)" (by decide +kernel) (by decide +kernel)
  have hparts : clampedColor [-7, 300, 16] = "#00FF10" ∧ clampedColor [33, 150, 243] = "#2196F3" := by
    decide +kernel
  rw [hparts.1] at hclamped
  rw [hparts.2] at hliteral
  exact ⟨(hclamped "Color.fromARGB(0, -7, 300, 016)" (by decide +kernel) (by decide +kernel)).1,
    (hclamped "Color.fromRGBO(-7, 300, 016, 0.5)" (by decide +kernel) (by decide +kernel)).1, hliteral.1,
    hliteral.2 (by decide) "0x802196f3" (by decide +kernel) (by decide +kernel),
    hnamed hwords ⟨"seed", by decide +kernel, by decide, by simp⟩
      "Color.fromRGBO(33, seed, 243, 0.5)" (by decide +kernel) (by decide +kernel)⟩

end Style

end WidgetJsx
