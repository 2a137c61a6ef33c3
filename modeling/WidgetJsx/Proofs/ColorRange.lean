import WidgetJsx.Proofs.Indentation
import WidgetJsx.Proofs.Recognition
import WidgetJsx.Style.Color

/-! The colors that expressions stand for. A color is `#` and six digits in base sixteen, or it is
`transparent`; an expression of another kind keeps its text, without the white space around it. Both are
their own colors. -/

namespace WidgetJsx

open Expression Text

/-- A call starts with a name. -/
theorem Construction.read_ne_ok_of_head {text : String} {first : Char} {cs : List Char}
    (ht : text.toList = first :: cs) (hname : isNameChar first = false) (hblank : isBlank first = false)
    (hslash : first ≠ '/') (c : Construction) : Construction.read text ≠ .ok c := by
  intro hc
  obtain ⟨-, call, rest, -, hcall, -⟩ := Construction.read_eq_ok_iff.mp hc
  obtain ⟨n, hcall, -⟩ := readCall_eq_ok_iff.mp hcall
  have hstart : callStart (.ofList text.toList) = .ofList (first :: cs) :=
    ht ▸ callStart_eq .nil .none (solid_cons hblank hslash cs) (keywordLength_cons hname cs) []
  have hstarts : isNameStart first ≠ true := fun h => by simp [isNameChar_of_isNameStart h] at hname
  have hpath := hcall.path_pos
  rw [hstart, Cursor.ofList, pathLength_cons (Bool.eq_false_iff.mpr hstarts)] at hpath
  exact absurd hpath (Nat.lt_irrefl 0)

namespace Style

inductive IsColor : String → Prop
  | hex {digits : List Char} : digits.length = 6 → (∀ c ∈ digits, isHexDigit c = true) →
      IsColor (String.ofList ('#' :: digits))
  | transparent : IsColor "transparent"

theorem isColor_iff {s : String} : IsColor s ↔ s = "transparent" ∨
    s.toList.head? = some '#' ∧ s.toList.tail.length = 6 ∧ s.toList.tail.all isHexDigit = true := by
  constructor
  · rintro (⟨hl, hd⟩ | _)
    · exact .inr (by simpa using ⟨hl, hd⟩)
    · exact .inl rfl
  · rintro (rfl | ⟨hh, hl, hd⟩)
    · exact .transparent
    · have hs : s = String.ofList ('#' :: s.toList.tail) := by
        rw [← List.eq_cons_of_mem_head? hh, String.ofList_toList]
      exact hs ▸ .hex hl (List.all_eq_true.mp hd)

instance (s : String) : Decidable (IsColor s) :=
  decidable_of_iff' _ isColor_iff

theorem isColor_namedColor (name : String) : IsColor (namedColor name) := by
  have hpalette : ∀ entry ∈ palette, IsColor entry.2 := by decide
  unfold namedColor
  cases h : palette.lookup name with
  | none => exact show IsColor "#000000" by decide
  | some value =>
    have hget : (⟨palette⟩ : Fields String).get? name = some value := h
    exact hpalette _ (Fields.mem_of_get? hget)

theorem isColor_opaqueColor? {text value : String} (h : opaqueColor? text = some value) : IsColor value := by
  unfold opaqueColor? at h
  split at h
  · split at h
    · rename_i hd
      obtain rfl := Option.some.inj h
      refine .hex ?_ fun c hc => List.all_eq_true.mp hd.2.2 c (List.mem_of_mem_drop hc)
      rw [List.length_drop, hd.2.1]
    · cases h
  · cases h

/-- The number that a channel of a color is. -/
def channel? (c : Construction) (i : Nat) : Option Binary64 := c.positionalText? i >>= numberIn?

/-- A color from its channels, two digits for each. -/
def channelDigits (channels : List Binary64) : String :=
  String.ofList ('#' :: channels.flatMap fun x => byteDigits x.toByte)

theorem channelColor?_eq (c : Construction) (indices : List Nat) :
    channelColor? c indices = (indices.mapM (channel? c)).map channelDigits := by
  have hparts : (indices.mapM fun i => do
      let x ← numberIn? (← c.positionalText? i)
      return byteDigits x.toByte) =
      (indices.mapM (channel? c)).map (List.map fun x => byteDigits x.toByte) := by
    induction indices with
    | nil => rfl
    | cons i indices ih =>
      rw [List.mapM_cons, List.mapM_cons, ih, channel?]
      cases c.positionalText? i with
      | none => rfl
      | some text =>
        simp only [Option.bind_eq_bind, Option.bind_some]
        cases numberIn? text with
        | none => rfl
        | some x => cases List.mapM (channel? c) indices <;> rfl
  rw [channelColor?, hparts]
  cases indices.mapM (channel? c) <;> rfl

theorem toByte_le (x : Binary64) : x.toByte ≤ 255 := by
  unfold Binary64.toByte
  split
  · exact Nat.zero_le _
  all_goals split
  · exact Nat.zero_le _
  · exact Nat.le_refl _
  · exact Nat.zero_le _
  · exact Nat.min_le_left _ _

theorem isHexDigit_byteDigits {n : Nat} (hn : n ≤ 255) {c : Char} (hc : c ∈ byteDigits n) :
    isHexDigit c = true := by
  have hdigit : ∀ k < 16, isHexDigit (Nat.digitChar k).toUpper = true := by decide
  simp only [byteDigits, List.mem_cons, List.not_mem_nil, or_false] at hc
  rcases hc with rfl | rfl
  · exact hdigit _ (by omega)
  · exact hdigit _ (by omega)

theorem length_of_mapM {α β : Type} {f : α → Option β} {l : List α} {found : List β}
    (h : l.mapM f = some found) : found.length = l.length := by
  induction l generalizing found with
  | nil =>
    cases h
    rfl
  | cons a l ih =>
    rw [List.mapM_cons] at h
    obtain ⟨first, -, h⟩ := Option.bind_eq_some_iff.mp h
    obtain ⟨others, hothers, h⟩ := Option.bind_eq_some_iff.mp h
    obtain rfl := Option.some.inj h
    rw [List.length_cons, List.length_cons, ih hothers]

theorem isColor_channelColor? {c : Construction} {indices : List Nat} (hl : indices.length = 3)
    {value : String} (h : channelColor? c indices = some value) : IsColor value := by
  rw [channelColor?_eq] at h
  obtain ⟨channels, hm, rfl⟩ := Option.map_eq_some_iff.mp h
  refine .hex ?_ fun d hd => ?_
  · have hdigits : ∀ n, (byteDigits n).length = 2 := fun _ => rfl
    simp only [List.length_flatMap, hdigits, List.map_const', List.sum_replicate_nat, length_of_mapM hm, hl]
  · obtain ⟨x, -, hd⟩ := List.mem_flatMap.mp hd
    exact isHexDigit_byteDigits (toByte_le x) hd

theorem isColor_constructedColor? {c : Construction} {value : String}
    (h : constructedColor? c = some value) : IsColor value := by
  unfold constructedColor? at h
  split at h
  · obtain ⟨text, -, h⟩ := Option.bind_eq_some_iff.mp h
    exact isColor_opaqueColor? h
  · exact isColor_channelColor? rfl h
  · exact isColor_channelColor? rfl h
  · cases h

/-- The name that is looked up in the palette. -/
def paletteName (cs : List Char) : String :=
  String.ofList ((cs.drop "Colors.".length).takeWhile (· ≠ '.'))

section

variable {text : String}

theorem color_of_palette (hc : "Colors.".toList <+: trim text.toList) :
    color text = namedColor (paletteName (trim text.toList)) :=
  if_pos (List.isPrefixOf_iff_prefix.mpr hc)

theorem color_of_not_palette (hc : ¬ "Colors.".toList <+: trim text.toList) :
    color text = match Construction.read (trimmed text) with
      | .ok c => (constructedColor? c).getD (trimmed text)
      | .error _ => trimmed text :=
  if_neg (mt List.isPrefixOf_iff_prefix.mp hc)

end

theorem isColor_or_eq_trimmed (text : String) : IsColor (color text) ∨ color text = trimmed text := by
  by_cases hc : "Colors.".toList <+: trim text.toList
  · exact .inl (color_of_palette hc ▸ isColor_namedColor _)
  rw [color_of_not_palette hc]
  split
  · rename_i c _
    cases hv : constructedColor? c with
    | none => exact .inr rfl
    | some value => exact .inl (isColor_constructedColor? hv)
  · exact .inr rfl

theorem color_trimmed (text : String) : color (trimmed text) = color text := by
  have htrim : trim (trimmed text).toList = trim text.toList := by
    rw [trimmed, String.toList_ofList]
    exact trim_eq_self (trimmed_trim text.toList)
  unfold color
  rw [htrim]

/-- No text that starts with a `#` is an expression. -/
theorem color_hash {cs : List Char} (h : Trimmed ('#' :: cs)) :
    color (String.ofList ('#' :: cs)) = String.ofList ('#' :: cs) := by
  have htrim : trim (String.ofList ('#' :: cs)).toList = '#' :: cs := by
    rw [String.toList_ofList]
    exact trim_eq_self h
  have hprefix : ¬ "Colors.".toList <+: trim (String.ofList ('#' :: cs)).toList := by
    rw [htrim]
    exact fun hp => absurd (List.cons_prefix_cons.mp hp).1 (by decide)
  rw [color_of_not_palette hprefix, trimmed, htrim]
  split
  · rename_i c hc
    exact absurd hc
      (Construction.read_ne_ok_of_head (String.toList_ofList) (by decide) (by decide) (by decide) c)
  · rfl

theorem color_eq_self {s : String} (h : IsColor s) : color s = s := by
  cases h with
  | @hex digits hl hd =>
    refine color_hash ⟨?_, fun c hc => ?_⟩
    · rintro c ⟨⟩
      decide
    · rcases List.mem_cons.mp (List.mem_of_getLast? hc) with rfl | hm
      · decide
      · exact isBlank_eq_false_of_isNameChar (isNameChar_of_isHexDigit (hd c hm))
  | transparent => decide +kernel

/-- The color of an expression is a color or the expression itself, and it stands for itself. -/
theorem color_range_fixed (text : String) :
    (IsColor (color text) ∨ color text = trimmed text) ∧ color (color text) = color text := by
  refine ⟨isColor_or_eq_trimmed text, ?_⟩
  rcases isColor_or_eq_trimmed text with h | h
  · exact color_eq_self h
  · rw [h, color_trimmed, h]

end Style

end WidgetJsx
