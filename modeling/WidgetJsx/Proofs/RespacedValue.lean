import WidgetJsx.Proofs.ColorRange
import WidgetJsx.Proofs.RespacedTree
import WidgetJsx.Style.Edge
import WidgetJsx.Style.Insets
import WidgetJsx.Style.Keyword

/-! The styles of widgets from two texts that differ in a gap. Numbers and keywords are the same; a text of a
style is the same unless the gap shows in it, or in a text that a channel of a color is read from. -/

namespace WidgetJsx

open Expression Text

variable {core : List Char} {R : Widget → Widget → Prop} {t t' : String} {c c' : Construction}

theorem Construction.Alike.refl (core : List Char) (c : Construction) :
    c.Alike core (fun _ _ => True) c := by
  have harg : ∀ a : Argument Widget, a.Alike core (fun _ _ => True) a := by
    intro a
    cases a with
    | string text => exact .string text
    | number text => exact .number text
    | boolean value => exact .boolean value
    | reference path => exact .reference path
    | construction text => exact .construction (.same text)
    | widget w => exact .widget trivial
    | widgets ws => exact .widgets (List.forall₂_same.mpr fun _ _ => trivial)
    | raw text => exact .raw (.same text)
  exact ⟨rfl, List.forall₂_same.mpr fun a _ => harg a, List.forall₂_same.mpr fun x _ => ⟨rfl, harg x.2⟩⟩

theorem Expression.Swap.Joins.ties_construction {w : Swap}
    (h : w.Joins core (.ofList t.toList) (.ofList t'.toList)) :
    Ties (Construction.Alike core fun _ _ => True) (Construction.read t) (Construction.read t') := by
  intro c hc
  obtain ⟨-, call, rest, entries, hcall, hentries, hend, rfl⟩ := Construction.read_eq_ok_iff.mp hc
  obtain ⟨⟨call', rest'⟩, hcall', hname, ⟨v, hv⟩, x, hx⟩ := h.ties_readCall _ hcall
  obtain ⟨entries', hentries', he⟩ :=
    Swap.Joins.ties_readEntries (respects_readWidget (fun _ _ _ => trivial) _ _) hv entries hentries
  have hsize : t'.utf8ByteSize ≤ Limits.standard.bytes := by simpa [Cursor.ofList, Short] using h.short'
  exact ⟨_, Construction.read_eq_ok_iff.mpr
    ⟨hsize, call', rest', entries', hcall', hentries', hx.expectEnd_eq_ok hend, rfl⟩,
    hname, Entry.alike_positional he, Entry.alike_named he⟩

/-- A name that a quote follows is no call. -/
theorem Construction.read_ne_ok_of_rawHead (h : RawHead t.toList) (c : Construction) :
    Construction.read t ≠ .ok c := by
  intro hc
  obtain ⟨-, call, rest, -, hcall, -⟩ := Construction.read_eq_ok_iff.mp hc
  obtain ⟨n, hcall, -⟩ := readCall_eq_ok_iff.mp hcall
  obtain ⟨q, hq, ds, ht⟩ := h
  have hquote : isNameChar q = false ∧ q ≠ '.' ∧ q ≠ '(' ∧ isBlank q = false ∧ q ≠ '/' := by
    rcases isQuote_cases hq with rfl | rfl <;> decide
  obtain ⟨hname, hdot, hparen, hblank, hslash⟩ := hquote
  have hr : IsName ['r'] := by decide
  have hstops : PathStops (q :: ds) := pathStops_cons hname fun _ _ he => absurd he hdot
  have hsolid : triviaLength (q :: ds) = 0 := solid_cons hblank hslash ds
  have hgap : triviaLength t.toList = 0 := by
    rw [← ht]
    exact solid_cons (by decide) (by decide) _
  have hkey : keywordLength t.toList = 0 := by
    rw [← ht]
    exact hr.keywordLength_eq_zero hstops.ends (by decide)
  have hstart : callStart (.ofList t.toList) = .ofList t.toList := by
    simp only [callStart, unworded, Cursor.ofList, hgap, Cursor.forward_zero, hkey]
  rw [hstart] at hcall
  have hopens := hcall.opens
  have hl : pathLength (['r'] ++ q :: ds) = 1 := (pathOf_singleton hr).pathLength_eq hstops
  have ha : t.toList = ['r'] ++ q :: ds := ht.symm
  rw [Cursor.next?, CallAt.opening_ahead, Cursor.ofList, ha, hl, List.singleton_append, List.drop_one,
    List.tail_cons, hsolid, List.drop_zero, List.head?_cons, Option.some_inj] at hopens
  exact hparen hopens

theorem Expression.Kept.read (h : Kept core t t') :
    (∃ c c', Construction.read t = .ok c ∧ Construction.read t' = .ok c' ∧
      c.Alike core (fun _ _ => True) c') ∨
    ∃ fault fault', Construction.read t = .error fault ∧ Construction.read t' = .error fault' := by
  have hties : (∀ c, Construction.read t = .ok c → ∃ c', Construction.read t' = .ok c' ∧
      c.Alike core (fun _ _ => True) c') ∧
      ∀ c', Construction.read t' = .ok c' → ∃ c, Construction.read t = .ok c := by
    cases h with
    | same => exact ⟨fun c hc => ⟨c, hc, .refl core c⟩, fun c hc => ⟨c, hc⟩⟩
    | parted hp =>
      rcases hp.reads with ⟨w, hw⟩ | ⟨hraw, hraw'⟩
      · refine ⟨hw.ties_construction, fun c' hc' => ?_⟩
        obtain ⟨c, hc, -⟩ := hw.symm.ties_construction c' hc'
        exact ⟨c, hc⟩
      · exact ⟨fun c hc => absurd hc (Construction.read_ne_ok_of_rawHead hraw c),
          fun c hc => absurd hc (Construction.read_ne_ok_of_rawHead hraw' c)⟩
  cases hc : Construction.read t with
  | ok c =>
    obtain ⟨c', hc', halike⟩ := hties.1 c hc
    exact .inl ⟨c, c', rfl, hc', halike⟩
  | error fault =>
    cases hc' : Construction.read t' with
    | error fault' => exact .inr ⟨fault, fault', rfl, rfl⟩
    | ok c' =>
      obtain ⟨c, hok⟩ := hties.2 c' hc'
      rw [hc] at hok
      cases hok

namespace Expression

instance (cs : List Char) : Decidable (DottedPath cs) := inferInstanceAs (Decidable (_ ∧ _))

theorem Parted.trimmed_eq (h : Parted core t.toList t'.toList) :
    Text.trimmed t = t ∧ Text.trimmed t' = t' := by
  simp only [Text.trimmed, trim_eq_self h.trimmed, trim_eq_self h.trimmed', String.ofList_toList, and_self]

theorem Parted.ne (h : Parted core t.toList t'.toList) {constant : String}
    (hc : DottedPath constant.toList) : t ≠ constant ∧ t' ≠ constant :=
  ⟨fun he => h.not_path (he ▸ hc), fun he => h.not_path' (he ▸ hc)⟩

/-- Parted texts start alike, as far as neither a gap nor a raw string comes first. -/
theorem Parted.prefix_iff {u cs cs' : List Char} (h : Parted core cs cs') (hu : Gapless u)
    (hr : u.head? ≠ some 'r') (hne : u ≠ []) : u <+: cs ↔ u <+: cs' := by
  rcases h.reads with ⟨w, hw⟩ | ⟨hraw, hraw'⟩
  · exact hw.prefix_iff hu
  · obtain ⟨c, u, rfl⟩ := List.exists_cons_of_ne_nil hne
    have hnot : ∀ {ds : List Char}, RawHead ds → ¬ (c :: u) <+: ds := by
      rintro ds ⟨q, -, v, rfl⟩ hp
      exact hr (congrArg some (List.cons_prefix_cons.mp hp).1)
    exact ⟨fun hp => absurd hp (hnot hraw), fun hp => absurd hp (hnot hraw')⟩

/-- A text that is compared with constants alone. -/
theorem Kept.eq_of_constants (h : Kept core t t') {α : Type} {f : String → α} {a : α}
    (hf : ∀ s, ¬ DottedPath (Text.trimmed s).toList → f s = a) : f t = f t' := by
  cases h with
  | same => rfl
  | parted hp =>
    rw [hf t (by rw [hp.trimmed_eq.1]; exact hp.not_path), hf t' (by rw [hp.trimmed_eq.2]; exact hp.not_path')]

end Expression

namespace Style

/-! Keywords are read from dotted paths; for any other text they have one value. -/

section

variable {s : String} (h : ¬ DottedPath (Text.trimmed s).toList)

include h

theorem trimmed_ne {constant : String} (hc : DottedPath constant.toList) : Text.trimmed s ≠ constant :=
  fun he => h (he ▸ hc)

theorem mainAxis_of_not_path : mainAxis s = "flex-start" := by
  unfold mainAxis
  split
  case h_6 => rfl
  all_goals exact absurd ‹_› (trimmed_ne h (by decide))

theorem crossAxis_of_not_path : crossAxis s = "stretch" := by
  unfold crossAxis
  split
  case h_5 => rfl
  all_goals exact absurd ‹_› (trimmed_ne h (by decide))

theorem textAlign_of_not_path : textAlign s = "left" := by
  unfold textAlign
  split
  case h_5 => rfl
  all_goals exact absurd ‹_› (trimmed_ne h (by decide))

theorem alignment?_of_not_path : alignment? s = none := by
  unfold alignment?
  split
  case h_10 => rfl
  all_goals exact absurd ‹_› (trimmed_ne h (by decide))

theorem fontWeight_of_not_path : fontWeight s = "normal" := by
  unfold fontWeight
  split
  case h_11 => rfl
  all_goals exact absurd ‹_› (trimmed_ne h (by decide))

theorem fontStyle_of_not_path : fontStyle s = "normal" :=
  if_neg (trimmed_ne h (by decide))

end

/-- The texts that the parts of a color are read from, if it is a call with parts. -/
def constructedChannels (c : Construction) : List String :=
  if c.name = "Color.fromARGB" then [1, 2, 3].filterMap c.positionalText?
  else if c.name = "Color.fromRGBO" then [0, 1, 2].filterMap c.positionalText?
  else []

def channels (text : String) : List String :=
  match Construction.read (Text.trimmed text) with
  | .ok c => constructedChannels c
  | .error _ => []

/-- The same value, or two texts where the gap shows in the first. -/
inductive Value.Alike (core : List Char) : Value → Value → Prop
  | same (x : Value) : Alike core x x
  | shows {text text' : String} : core <:+: text.toList → Alike core (.text text) (.text text')

theorem isName_of_mem_palette : ∀ name ∈ palette.map Prod.fst, IsName name.toList := by
  decide

theorem pathOf_colors {name : List Char} (h : IsName name) :
    PathOf ["Colors".toList, name] ("Colors.".toList ++ name) := by
  refine ⟨List.cons_ne_nil _ _, ?_, ?_⟩
  · simpa using ⟨by decide, h⟩
  · rw [intercalate_cons, List.flatMap_singleton]
    rfl

theorem dottedPath_colors {name : List Char} (h : IsName name) : DottedPath ("Colors.".toList ++ name) := by
  have hl : pathLength (("Colors.".toList ++ name) ++ []) = _ := (pathOf_colors h).pathLength_eq rfl
  rw [List.append_nil] at hl
  exact ⟨List.mem_append_left _ (by decide), hl⟩

theorem gapless_colors {name : List Char} (h : IsName name) :
    Gapless ("Colors.".toList ++ (name ++ ['.'])) := by
  intro c hc
  rw [← List.append_assoc] at hc
  rcases List.mem_append.mp hc with hc | hc
  · exact (pathOf_colors h).gapless c hc
  · rw [List.mem_singleton.mp hc]
    decide

theorem gapless_prefix : Gapless "Colors.".toList :=
  fun c hc => gapless_colors (by decide : IsName ['a']) c (List.mem_append_left _ hc)

/-- A name of the palette that ends before the text does is followed by a dot. -/
theorem paletteName_eq_iff {cs : List Char} {name : String} (hc : "Colors.".toList <+: cs)
    (hp : ¬ DottedPath cs) (hn : name ∈ palette.map Prod.fst) :
    paletteName cs = name ↔ "Colors.".toList ++ (name.toList ++ ['.']) <+: cs := by
  obtain ⟨rest, rfl⟩ := hc
  have hname := isName_of_mem_palette name hn
  have hdrop : ("Colors.".toList ++ rest).drop "Colors.".length = rest := by
    rw [← String.length_toList, List.drop_left]
  rw [List.prefix_append_right_inj, paletteName, hdrop]
  constructor
  · rintro rfl
    rw [String.toList_ofList] at hname ⊢
    have hsplit := List.takeWhile_append_dropWhile (p := (· ≠ '.')) (l := rest)
    cases hd : rest.dropWhile (· ≠ '.') with
    | nil =>
      rw [hd, List.append_nil] at hsplit
      exact absurd (hsplit ▸ dottedPath_colors hname) hp
    | cons d ds =>
      have hd' := List.head?_dropWhile_not (· ≠ '.') rest
      rw [hd] at hd'
      obtain rfl : d = '.' := by simpa using hd'
      rw [hd] at hsplit
      exact ⟨ds, by rw [List.append_assoc]; exact hsplit⟩
  · rintro ⟨ds, rfl⟩
    rw [List.append_assoc, List.takeWhile_append_of_pos fun c hc => by
      simpa using fun he : c = '.' => absurd (hname.isNameChar c hc) (by rw [he]; decide)]
    simp

theorem namedColor_eq {name name' : String}
    (h : ∀ known ∈ palette.map Prod.fst, name = known ↔ name' = known) : namedColor name = namedColor name' := by
  by_cases hn : name ∈ palette.map Prod.fst
  · rw [(h name hn).mp rfl]
  · have hn' : name' ∉ palette.map Prod.fst := fun hm => hn ((h name' hm).mpr rfl ▸ hm)
    have hnone : ∀ {x : String}, x ∉ palette.map Prod.fst → palette.lookup x = none := by
      intro x hx
      refine List.lookup_eq_none_iff.mpr fun entry he => bne_iff_ne.mpr ?_
      rintro rfl
      exact hx (List.mem_map_of_mem he)
    rw [namedColor, namedColor, hnone hn, hnone hn']

section

variable {text : String}

/-- A text with a slash in it has no opaque color. -/
theorem opaqueColor?_eq_none (h : '/' ∈ text.toList) : opaqueColor? text = none := by
  unfold opaqueColor?
  split
  next x digits ht =>
    refine if_neg ?_
    rintro ⟨hx, -, hall⟩
    rw [ht] at h
    have hd : '/' ∈ digits := by
      rcases List.mem_cons.mp h with h | h
      · exact absurd h (by decide)
      rcases List.mem_cons.mp h with h | h
      · rcases hx with rfl | rfl <;> exact absurd h (by decide)
      · exact h
    exact absurd (List.all_eq_true.mp hall _ hd) (by decide)
  · rfl

theorem channelColor?_congr {c c' : Construction} {indices : List Nat}
    (h : ∀ i ∈ indices, c.positionalText? i = c'.positionalText? i) :
    channelColor? c indices = channelColor? c' indices := by
  unfold channelColor?
  congr 1
  induction indices with
  | nil => rfl
  | cons i indices ih =>
    rw [List.mapM_cons, List.mapM_cons, ih fun j hj => h j (List.mem_cons_of_mem _ hj),
      h i List.mem_cons_self]

end

end Style

/-! Optional values that are related, or missing together. -/

section

variable {α α' β β' : Type} {P : α → α' → Prop} {Q : β → β' → Prop} {x : Option α} {x' : Option α'}

theorem rel_bind {f : α → Option β} {f' : α' → Option β'} (h : Option.Rel P x x')
    (hf : ∀ a a', P a a' → Option.Rel Q (f a) (f' a')) : Option.Rel Q (x >>= f) (x' >>= f') := by
  cases h with
  | none => exact .none
  | some h => exact hf _ _ h

theorem bind_eq_bind {f : α → Option β} {f' : α' → Option β} (h : Option.Rel P x x')
    (hf : ∀ a a', P a a' → f a = f' a') : x >>= f = x' >>= f' := by
  cases h with
  | none => rfl
  | some h => exact hf _ _ h

theorem rel_getElem? {xs : List α} {ys : List α'} (h : List.Forall₂ P xs ys) (i : Nat) :
    Option.Rel P xs[i]? ys[i]? := by
  induction h generalizing i with
  | nil => exact .none
  | cons h _ ih =>
    cases i with
    | zero => exact .some h
    | succ i => exact ih i

end

namespace Argument.Alike

variable {a a' : Argument Widget}

theorem text? (h : a.Alike core R a') : Option.Rel (Kept core) a.text? a'.text? := by
  cases h with
  | string text => exact .some (.same text)
  | number text => exact .some (.same text)
  | boolean value => exact .some (.same _)
  | reference path => exact .some (.same path)
  | construction h => exact .some h
  | widget => exact .none
  | widgets => exact .none
  | raw h => exact .some h

theorem literal? (h : a.Alike core R a') : a.literal? = a'.literal? := by
  cases h <;> rfl

end Argument.Alike

namespace Construction.Alike

theorem positionalText? (h : c.Alike core R c') (i : Nat) :
    Option.Rel (Kept core) (c.positionalText? i) (c'.positionalText? i) :=
  rel_bind (rel_getElem? h.positional i) fun _ _ ha => ha.text?

theorem channels_eq (h : c.Alike core R c') {indices : List Nat}
    (hc : ∀ text ∈ indices.filterMap c.positionalText?, ¬ core <:+: text.toList) :
    ∀ i ∈ indices, c.positionalText? i = c'.positionalText? i := by
  intro i hi
  have hrel := h.positionalText? i
  cases hx : c.positionalText? i with
  | none =>
    rw [hx] at hrel
    generalize c'.positionalText? i = x' at hrel
    cases hrel with
    | none => rfl
  | some text =>
    rw [hx] at hrel
    generalize c'.positionalText? i = x' at hrel
    cases hrel with
    | some hk =>
      cases hk with
      | same => rfl
      | parted hp => exact absurd hp.shows (hc text (List.mem_filterMap.mpr ⟨i, hi, hx⟩))

/-- A color that is written as a call is the same, unless the gap shows in its channels. -/
theorem constructedColor? (h : c.Alike core R c') (hcore : '/' ∈ core)
    (hc : ∀ text ∈ Style.constructedChannels c, ¬ core <:+: text.toList) {color : String}
    (hx : Style.constructedColor? c = some color) : Style.constructedColor? c' = some color := by
  unfold Style.constructedColor? at hx ⊢
  rw [h.name_eq]
  split at hx
  next hn =>
    have hrel := h.positionalText? 0
    generalize c'.positionalText? 0 = x' at hrel
    cases ht : c.positionalText? 0 with
    | none =>
      rw [ht] at hx
      cases hx
    | some text =>
      rw [ht] at hx hrel
      cases hrel with
      | some hk =>
        cases hk with
        | same => exact hx
        | parted hp =>
          rw [Option.bind_eq_bind, Option.bind_some, Style.opaqueColor?_eq_none (hp.shows.subset hcore)] at hx
          cases hx
  next hn =>
    rw [Style.constructedChannels, if_pos hn] at hc
    simpa only [hn, Style.channelColor?_congr (h.channels_eq hc)] using hx
  next hn =>
    rw [Style.constructedChannels, if_neg (by rw [hn]; decide), if_pos hn] at hc
    simpa only [hn, Style.channelColor?_congr (h.channels_eq hc)] using hx
  · cases hx

end Construction.Alike

namespace Expression.Kept

theorem color (h : Kept core t t') (hcore : '/' ∈ core)
    (hc : ∀ text ∈ Style.channels t, ¬ core <:+: text.toList) :
    (Style.Value.text (Style.color t)).Alike core (.text (Style.color t')) := by
  have hread := h.read
  cases h with
  | same => exact .same _
  | parted hp =>
    by_cases hpre : "Colors.".toList <+: t.toList
    · have hpre' := (hp.prefix_iff Style.gapless_prefix (by decide) (by decide)).mp hpre
      rw [Style.color_of_palette (by rwa [trim_eq_self hp.trimmed]), trim_eq_self hp.trimmed,
        Style.color_of_palette (by rwa [trim_eq_self hp.trimmed']), trim_eq_self hp.trimmed']
      rw [Style.namedColor_eq fun name hn => ?_]
      · exact .same _
      · rw [Style.paletteName_eq_iff hpre hp.not_path hn, Style.paletteName_eq_iff hpre' hp.not_path' hn]
        exact hp.prefix_iff (Style.gapless_colors (Style.isName_of_mem_palette name hn)) (by simp) (by simp)
    · have hpre' := mt (hp.prefix_iff Style.gapless_prefix (by decide) (by decide)).mpr hpre
      rw [Style.color_of_not_palette (by rwa [trim_eq_self hp.trimmed]),
        Style.color_of_not_palette (by rwa [trim_eq_self hp.trimmed']), hp.trimmed_eq.1, hp.trimmed_eq.2]
      rcases hread with ⟨c, c', hr, hr', halike⟩ | ⟨fault, fault', hr, hr'⟩
      · simp only [Style.channels, hp.trimmed_eq.1, hr] at hc
        simp only [hr, hr']
        cases hx : Style.constructedColor? c with
        | none => exact .shows hp.shows
        | some color =>
          rw [halike.constructedColor? hcore hc hx]
          exact .same _
      · simp only [hr, hr']
        exact .shows hp.shows

end Expression.Kept

end WidgetJsx
