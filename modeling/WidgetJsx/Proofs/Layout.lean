import WidgetJsx.Proofs.Tree
import WidgetJsx.Proofs.TypeArguments

/-! How widget trees are written. A tree has many layouts: white space and comments between the parts,
keywords, quotes, the types in front of a list and the place of the content among the arguments are
free. A tree can be written if each of its widgets is one that a reader could have made, and raw text
stands nowhere in it. -/

namespace WidgetJsx

open Expression Text

/-- The text of the argument is of the kind that the argument says, and would be taken for that. -/
def Argument.Writable : Argument Widget → Prop
  | .number text => IsNumber text.toList
  | .reference path => ∃ names, PathOf names path.toList ∧ 2 ≤ names.length ∧ Unreserved names
  | .construction text => ∃ names path gap body, PathOf names path ∧ Unreserved names ∧
      Trivia gap ∧ Widget.isWidgetName (String.ofList path) = false ∧
        text.toList = path ++ (gap ++ '(' :: (body ++ [')'])) ∧
          closing? ((path ++ gap).getLastD '\n') ('(' :: (body ++ [')'])) = some (body.length + 1)
  | .raw _ => False
  | .string _ | .boolean _ | .widget _ | .widgets _ => True

namespace Content

/-- Put back among the arguments, the content would be split off again. -/
def Apart (arguments : Fields (Argument Widget)) : Content Widget → Prop
  | .none => (∀ v, ("child", .widget v) ∉ arguments.entries) ∧
      ∀ vs, ("children", .widgets vs) ∉ arguments.entries
  | .child _ => "child" ∉ arguments.keys
  | .children _ => "children" ∉ arguments.keys ∧ ∀ v, ("child", .widget v) ∉ arguments.entries

/-- The arguments with the content put back at any place. -/
inductive Among (arguments : Fields (Argument Widget)) :
    Content Widget → List (String × Argument Widget) → Prop
  | none : Among arguments .none arguments.entries
  | child {front back : List (String × Argument Widget)} {w : Widget} :
      arguments.entries = front ++ back →
      Among arguments (.child w) (front ++ ("child", .widget w) :: back)
  | children {front back : List (String × Argument Widget)} {ws : List Widget} :
      arguments.entries = front ++ back →
      Among arguments (.children ws) (front ++ ("children", .widgets ws) :: back)

end Content

namespace Widget

structure Writable (w : Widget) : Prop where
  nodup : w.arguments.keys.Nodup
  isName : ∀ key ∈ w.arguments.keys, IsName key.toList
  argument : ∀ entry ∈ w.arguments.entries, entry.2.Writable
  held : ∀ v ∈ w.held, IsName v.name.toList ∧ isWidgetName v.name = true
  text : ∀ text, w.text? = some text → isTextName w.name = true ∧ w.content = .none
  content : w.text? = none → w.content.Apart w.arguments

/-- The tree can be written. -/
def Sound (w : Widget) : Prop := ∀ v, Within v w → v.Writable

/-- The tree can be written inside another. -/
structure Nested (w : Widget) : Prop where
  isName : IsName w.name.toList
  isWidgetName : isWidgetName w.name = true
  sound : w.Sound

variable {v w : Widget}

theorem Sound.writable (h : w.Sound) : w.Writable := h w .refl

theorem Sound.nested (h : w.Sound) (hv : v ∈ w.held) : v.Nested := by
  obtain ⟨hn, hw⟩ := h.writable.held v hv
  exact ⟨hn, hw, fun u hu => h u (within_iff.mpr (.inr ⟨v, hv, hu⟩))⟩

theorem sound_iff : w.Sound ↔ w.Writable ∧ ∀ v ∈ w.held, v.Sound := by
  constructor
  · exact fun h => ⟨h.writable, fun v hv => (h.nested hv).sound⟩
  · rintro ⟨hw, hheld⟩ v hv
    rcases within_iff.mp hv with rfl | ⟨u, hu, hv⟩
    · exact hw
    · exact hheld u hu v hv

/-- Empty brackets can be written behind a name, and a text alone behind that of a text widget. -/
theorem sound_bare {name : String} {text? : Option String}
    (ht : ∀ text, text? = some text → isTextName name = true) :
    Sound ⟨name, ⟨[]⟩, text?, .none⟩ := by
  have hheld : held ⟨name, ⟨[]⟩, text?, .none⟩ = [] := rfl
  refine sound_iff.mpr ⟨?_, by simp [hheld]⟩
  exact
    { nodup := List.nodup_nil
      isName := by simp [Fields.keys]
      argument := by simp
      held := by simp [hheld]
      text := fun text he => ⟨ht text he, rfl⟩
      content := fun _ => by simp [Content.Apart] }

end Widget

def Argument.Sound (a : Argument Widget) : Prop := a.Writable ∧ ∀ v ∈ a.held, v.Nested

/-- A member of an argument list or of a list of widgets. -/
inductive Member where
  | entry (key : String) (value : Argument Widget)
  | item (w : Widget)

def Member.ofEntry (entry : String × Argument Widget) : Member := .entry entry.1 entry.2

def Member.Sound : Member → Prop
  | entry key value => IsName key.toList ∧ value.Sound
  | item w => w.Nested

theorem Member.sound_items {ws : List Widget} (h : ∀ w ∈ ws, w.Nested) :
    ∀ e ∈ ws.map Member.item, e.Sound := by
  intro e he
  obtain ⟨w, hw, rfl⟩ := List.mem_map.mp he
  exact h w hw

/-- What is written. The rest of a sequence is what stands behind one of its members, and the body of
a widget is its argument list. -/
inductive Piece where
  | value (a : Argument Widget)
  | member (e : Member)
  | sequence (es : List Member)
  | rest (es : List Member)
  | body (w : Widget)
  | call (w : Widget)

inductive Layout : Piece → List Char → Prop
  | string {text : String} {d : Delimiter} {u : List Char} : d.LiteralOf text.toList u →
      Layout (.value (.string text)) u
  | number (text : String) : Layout (.value (.number text)) text.toList
  | boolean (value : Bool) : Layout (.value (.boolean value)) (toString value).toList
  | reference {path : String} {keyword : List Char} : Keyword path.toList keyword →
      Layout (.value (.reference path)) (keyword ++ path.toList)
  | construction {text : String} {keyword : List Char} : Keyword text.toList keyword →
      Layout (.value (.construction text)) (keyword ++ text.toList)
  | widget {w : Widget} {u : List Char} : Layout (.call w) u → Layout (.value (.widget w)) u
  | widgets {ws : List Widget} {keyword types items : List Char} :
      Keyword (types ++ '[' :: (items ++ [']'])) keyword → TypesInFront types →
      Layout (.sequence (ws.map .item)) items →
      Layout (.value (.widgets ws)) (keyword ++ (types ++ '[' :: (items ++ [']'])))
  | entry {key : String} {value : Argument Widget} {before behind u : List Char} :
      Trivia before → Trivia behind → Layout (.value value) u →
      Layout (.member (.entry key value)) (key.toList ++ (before ++ ':' :: (behind ++ u)))
  | item {w : Widget} {u : List Char} : Layout (.call w) u → Layout (.member (.item w)) u
  | nil {gap : List Char} : Separators gap → Layout (.sequence []) gap
  | cons {e : Member} {es : List Member} {gap u v : List Char} : Separators gap →
      Layout (.member e) u → Layout (.rest es) v → Layout (.sequence (e :: es)) (gap ++ (u ++ v))
  | last {gap : List Char} : Trivia gap → Layout (.rest []) gap
  | more {es : List Member} {gap u : List Char} : Trivia gap → Layout (.sequence es) u →
      Layout (.rest es) (gap ++ ',' :: u)
  | text {w : Widget} {text : String} {d : Delimiter} {gap u v : List Char} : w.text? = some text →
      Trivia gap → d.LiteralOf text.toList u →
      Layout (.rest (w.arguments.entries.map .ofEntry)) v → Layout (.body w) (gap ++ (u ++ v))
  | arguments {w : Widget} {entries : List (String × Argument Widget)} {u : List Char} :
      w.text? = none → w.content.Among w.arguments entries →
      Layout (.sequence (entries.map .ofEntry)) u → Layout (.body w) u
  | call {w : Widget} {keyword gap body : List Char} :
      Keyword (w.name.toList ++ (gap ++ '(' :: (body ++ [')']))) keyword → Trivia gap →
      Layout (.body w) body →
      Layout (.call w) (keyword ++ (w.name.toList ++ (gap ++ '(' :: (body ++ [')']))))

/-- The tree can be written as a source text of its own. -/
structure Widget.Whole (w : Widget) : Prop where
  isName : IsName w.name.toList
  not_keyword : w.name ∉ keywords
  sound : w.Sound

/-- The source texts that a tree may be written as. -/
def Widget.WrittenAs (w : Widget) (source : List Char) : Prop :=
  ∃ lead text trail, source = lead ++ (text ++ trail) ∧ Trivia lead ∧ Layout (.call w) text ∧
    Terminators trail

def Piece.Sound : Piece → Prop
  | value a => a.Sound
  | member e => e.Sound
  | sequence es | rest es => ∀ e ∈ es, e.Sound
  | body w => w.Sound
  | call w => w.Whole

/-- What may stand in front of a piece: no letter that a raw string could be taken to go on. -/
def Piece.Starts (behind : List Char) : Piece → Prop
  | value _ | body _ => isNameChar (behind.headD '\n') = false
  | member _ | sequence _ | rest _ | call _ => True

/-- What may stand behind a piece. -/
def Piece.Stops (rest : List Char) : Piece → Prop
  | value _ | member _ => Follows rest
  | sequence _ | Piece.rest _ | body _ => Shut rest
  | call _ => True

theorem Widget.Nested.whole {w : Widget} (h : w.Nested) : w.Whole := by
  have hr := not_mem_reserved h.isWidgetName
  exact ⟨h.isName, fun hm => hr (mem_reserved_of_mem_keywords hm), h.sound⟩

theorem Widget.Sound.members {w : Widget} (h : w.Sound) :
    ∀ e ∈ w.arguments.entries.map Member.ofEntry, e.Sound := by
  intro e hm
  obtain ⟨entry, he, rfl⟩ := List.mem_map.mp hm
  refine ⟨h.writable.isName _ (List.mem_map_of_mem he), h.writable.argument entry he, ?_⟩
  intro v hv
  exact h.nested (List.mem_append_left _ (List.mem_flatMap.mpr ⟨entry, he, hv⟩))

theorem Content.Among.cases {arguments : Fields (Argument Widget)} {content : Content Widget}
    {entries : List (String × Argument Widget)} (h : content.Among arguments entries)
    {entry : String × Argument Widget} (he : entry ∈ entries) : entry ∈ arguments.entries ∨
      (∃ w, entry = ("child", .widget w) ∧ content = .child w) ∨
        ∃ ws, entry = ("children", .widgets ws) ∧ content = .children ws := by
  cases h with
  | none => exact .inl he
  | child hs =>
    rw [hs]
    simp only [List.mem_append, List.mem_cons] at he ⊢
    rcases he with he | rfl | he
    · exact .inl (.inl he)
    · exact .inr (.inl ⟨_, rfl, rfl⟩)
    · exact .inl (.inr he)
  | children hs =>
    rw [hs]
    simp only [List.mem_append, List.mem_cons] at he ⊢
    rcases he with he | rfl | he
    · exact .inl (.inl he)
    · exact .inr (.inr ⟨_, rfl, rfl⟩)
    · exact .inl (.inr he)

section

variable {w : Widget} {entries : List (String × Argument Widget)} {entry : String × Argument Widget}

theorem Widget.mem_held_of_among (ha : w.content.Among w.arguments entries) (he : entry ∈ entries)
    {v : Widget} (hv : v ∈ entry.2.held) : v ∈ w.held := by
  rcases ha.cases he with he | ⟨u, rfl, hc⟩ | ⟨us, rfl, hc⟩
  · exact List.mem_append_left _ (List.mem_flatMap.mpr ⟨entry, he, hv⟩)
  · exact List.mem_append_right _ (hc ▸ hv)
  · exact List.mem_append_right _ (hc ▸ hv)

theorem Widget.Sound.of_among (h : w.Sound) (ha : w.content.Among w.arguments entries) :
    ∀ e ∈ entries.map Member.ofEntry, e.Sound := by
  intro e hm
  obtain ⟨entry, he, rfl⟩ := List.mem_map.mp hm
  have hnested : ∀ v ∈ entry.2.held, v.Nested := fun v hv => h.nested (mem_held_of_among ha he hv)
  have hkeys : IsName "child".toList ∧ IsName "children".toList := by decide
  rcases ha.cases he with he | ⟨u, rfl, -⟩ | ⟨us, rfl, -⟩
  · exact h.members _ (List.mem_map_of_mem he)
  · exact ⟨hkeys.1, trivial, hnested⟩
  · exact ⟨hkeys.2, trivial, hnested⟩

end

namespace Layout

variable {w : Widget} {a : Argument Widget} {e : Member} {es : List Member} {u rest : List Char}

theorem firm_call (h : Layout (.call w) u) (hn : IsName w.name.toList) : Firm u := by
  cases h with
  | call hk _ _ => exact hk.firm (hn.firm.append _)

theorem firm_value (h : Layout (.value a) u) (ha : a.Sound) : Firm u := by
  cases h with
  | string hl => exact hl.firm
  | number text => exact IsNumber.firm ha.1
  | boolean value => cases value <;> exact firm_of_isNameChar (by decide) _
  | reference hk =>
    obtain ⟨names, hp, -⟩ := ha.1
    exact hk.firm hp.firm
  | construction hk =>
    obtain ⟨names, path, gap, body, hp, -, -, -, ht, -⟩ := ha.1
    exact hk.firm (ht ▸ hp.firm.append _)
  | widget h => exact h.firm_call (ha.2 _ (List.mem_singleton_self _)).isName
  | widgets hk ht _ => exact hk.firm (ht.firm _)

theorem firm_member (h : Layout (.member e) u) (he : e.Sound) : Firm u := by
  cases h with
  | entry _ _ _ => exact IsName.firm he.1 |>.append _
  | item h => exact h.firm_call he.isName

theorem follows (h : Layout (.rest es) u) (hr : Shut rest) : Follows (u ++ rest) := by
  cases h with
  | last hg => exact ⟨_, rest, rfl, hg, fun c hc => .inr (hr c hc)⟩
  | @more _ gap v hg _ => exact ⟨gap, ',' :: (v ++ rest), by simp, hg, by simp⟩

theorem crosses_call {names : List (List Char)} {path gap body behind : List Char}
    (hp : PathOf names path) (hg : Trivia gap)
    (hb : Crosses ('(' :: (gap.reverse ++ (path.reverse ++ behind))) body (')' :: rest)) :
    Crosses behind (path ++ (gap ++ '(' :: (body ++ [')']))) rest := by
  have hpath : Crosses behind path (gap ++ '(' :: (body ++ [')']) ++ rest) :=
    crosses_word hp.isNameChar_or_dot (breaks_call hg _ _) behind
  have hgap : Crosses (path.reverse ++ behind) gap ('(' :: (body ++ [')']) ++ rest) :=
    hg.crosses (solid_cons (by decide) (by decide) _) _
  exact hpath.append (hgap.append (hb.brackets (c := '(') rfl))

theorem crosses_keyword {keyword next behind : List Char} (hk : Keyword next keyword)
    (hn : Firm next) (hz : keywordLength (next ++ rest) = 0)
    (h : Crosses (keyword.reverse ++ behind) next rest) : Crosses behind (keyword ++ next) rest :=
  ((hk.append hn.ne_nil rest).crosses (hn.append rest).solid hz behind).append h

/-- Whatever is written, the matching scan comes to its end with no other brackets open. -/
theorem crosses {p : Piece} (h : Layout p u) (hp : p.Sound) {behind : List Char}
    (hb : p.Starts behind) (hr : p.Stops rest) : Crosses behind u rest := by
  -- By induction on the layout: each part is crossed in front of what is written behind it.
  induction h generalizing behind rest with
  | string hl => exact hl.crosses hb hr.breaks
  | number text => exact IsNumber.crosses hp.1 behind rest
  | boolean value =>
    have hv : ∀ value : Bool, IsName (toString value).toList := by decide
    exact (hv value).crosses hr.breaks behind
  | @reference path keyword hk =>
    obtain ⟨names, hpath, -, hu⟩ := hp.1
    exact crosses_keyword hk hpath.firm (hu.keywordLength_eq hpath hr.breaks.ends)
      (crosses_word hpath.isNameChar_or_dot hr.breaks _)
  | @construction text keyword hk =>
    obtain ⟨names, path, gap, body, hpath, hu, hg, -, ht, hc⟩ := hp.1
    rw [ht] at hk ⊢
    have hends : Ends (gap ++ '(' :: (body ++ [')']) ++ rest) := (breaks_call hg _ _).ends
    refine crosses_keyword hk (hpath.firm.append _) ?_ (crosses_call hpath hg ?_)
    · rw [List.append_assoc]
      exact hu.keywordLength_eq hpath hends
    · exact crosses_of_closing? rfl hc _ _
  | widget _ ih => exact ih (hp.2 _ (List.mem_singleton_self _)).whole trivial trivial
  | @widgets ws keyword types items hk ht _ ih =>
    have hz : keywordLength (types ++ '[' :: (items ++ [']']) ++ rest) = 0 := by
      rw [List.append_assoc]
      exact ht.keywordLength_eq _
    have hin : Crosses ('[' :: (types.reverse ++ (keyword.reverse ++ behind))) items (']' :: rest) :=
      ih (Member.sound_items hp.2) trivial (shut_cons (c := '[') rfl rest)
    exact crosses_keyword hk (ht.firm _) hz
      ((ht.crosses _ (items ++ [']'] ++ rest)).append (hin.brackets (c := '[') rfl))
  | @entry key value before gap u hg₁ hg₂ hu ih =>
    have hcolon : ∀ cs, Breaks (':' :: cs) := breaks_cons (by decide) (by decide) (by decide)
    have hkey : Crosses behind key.toList (before ++ ':' :: (gap ++ u) ++ rest) := by
      rw [List.append_assoc]
      exact IsName.crosses hp.1 (hg₁.breaks (hcolon _)) behind
    have hbefore := hg₁.crosses (solid_cons (c := ':') (by decide) (by decide) (gap ++ u ++ rest))
      (key.toList.reverse ++ behind)
    have hgap := hg₂.crosses ((hu.firm_value hp.2).append rest).solid
      (':' :: (before.reverse ++ (key.toList.reverse ++ behind)))
    have hprev : (Piece.value value).Starts
        (gap.reverse ++ ':' :: (before.reverse ++ (key.toList.reverse ++ behind))) :=
      hg₂.previous (show isNameChar ':' = false by decide)
    have hvalue := hgap.append (ih hp.2 hprev hr)
    exact hkey.append (hbefore.append (((mark_of_mem (by simp)).crosses _ _).cons hvalue))
  | item _ ih => exact ih hp.whole trivial trivial
  | nil hg => exact hg.crosses hr.solid_separators behind
  | @cons e es gap u v hg hu hv ihu ihv =>
    have he : e.Sound := hp e (by simp)
    have hfirm := (hu.firm_member he).append (v ++ rest)
    have hgap : Crosses behind gap (u ++ v ++ rest) := by
      rw [List.append_assoc]
      exact hg.crosses hfirm.solid_separators behind
    have hmember : Crosses (gap.reverse ++ behind) u (v ++ rest) := ihu he trivial (hv.follows hr)
    exact hgap.append (hmember.append (ihv (fun e hm => hp e (by simp [hm])) trivial hr))
  | last hg => exact hg.crosses hr.solid behind
  | @more es gap u hg _ ih =>
    have hgap := hg.crosses (solid_cons (c := ',') (by decide) (by decide) (u ++ rest)) behind
    exact hgap.append (((mark_of_mem (by simp)).crosses _ _).cons (ih hp trivial hr))
  | @text w text d gap u v ht hg hl hv ih =>
    have hgap : Crosses behind gap (u ++ v ++ rest) := by
      rw [List.append_assoc]
      exact hg.crosses (hl.firm.append _).solid behind
    have hliteral := hl.crosses (hg.previous hb) (hv.follows hr).breaks
    exact hgap.append (hliteral.append (ih hp.members trivial hr))
  | @arguments w entries u _ ha _ ih => exact ih (hp.of_among ha) trivial hr
  | @call w keyword gap body hk hg _ ih =>
    obtain ⟨hname, hword, hsound⟩ := hp
    have hends : Ends (gap ++ '(' :: (body ++ [')']) ++ rest) := (breaks_call hg _ _).ends
    have hz : keywordLength (w.name.toList ++ (gap ++ '(' :: (body ++ [')'])) ++ rest) = 0 := by
      rw [List.append_assoc]
      refine hname.keywordLength_eq_zero hends fun word hw he => hword ?_
      rwa [String.toList_inj.mp he]
    refine crosses_keyword hk (hname.firm.append _) hz (crosses_call (pathOf_singleton hname) hg ?_)
    exact ih hsound (show isNameChar '(' = false by decide) (shut_cons (c := '(') rfl rest)

end Layout

section

variable {w : Widget} {a : Argument Widget} {es : List Member}

theorem exists_literal (text : List Char) : ∃ d u, Delimiter.LiteralOf d text u := by
  have hcontent : ∃ content, Delimiter.Encodes ⟨'"', false, false⟩ content text := by
    induction text with
    | nil => exact ⟨[], .nil⟩
    | cons c text ih =>
      obtain ⟨content, he⟩ := ih
      exact ⟨'\\' :: c :: content, .escaped rfl he⟩
  obtain ⟨content, he⟩ := hcontent
  exact ⟨⟨'"', false, false⟩, _, by decide, content, rfl, he⟩

theorem exists_layout_sequence (h : ∀ e ∈ es, ∃ u, Layout (.member e) u) :
    ∃ u, Layout (.sequence es) u := by
  induction es with
  | nil => exact ⟨[], .nil .nil⟩
  | cons e es ih =>
    obtain ⟨u, hu⟩ := h e (by simp)
    obtain ⟨v, hv⟩ := ih fun e he => h e (by simp [he])
    exact ⟨_, .cons .nil hu (.more .nil hv)⟩

theorem exists_layout_value (ha : a.Sound) (h : ∀ v ∈ a.held, ∃ u, Layout (.call v) u) :
    ∃ u, Layout (.value a) u := by
  cases a with
  | string text =>
    obtain ⟨d, u, hl⟩ := exists_literal text.toList
    exact ⟨u, .string hl⟩
  | number text => exact ⟨_, .number text⟩
  | boolean value => exact ⟨_, .boolean value⟩
  | reference path => exact ⟨_, .reference .none⟩
  | construction text => exact ⟨_, .construction .none⟩
  | raw text => exact absurd ha.1 id
  | widget w =>
    obtain ⟨u, hu⟩ := h w (List.mem_singleton_self w)
    exact ⟨u, .widget hu⟩
  | widgets ws =>
    have hitems : ∀ e ∈ ws.map Member.item, ∃ u, Layout (.member e) u := by
      intro e he
      obtain ⟨w, hw, rfl⟩ := List.mem_map.mp he
      obtain ⟨u, hu⟩ := h w hw
      exact ⟨u, .item hu⟩
    obtain ⟨items, hi⟩ := exists_layout_sequence hitems
    exact ⟨_, .widgets .none .none hi⟩

theorem exists_layout_entries {entries : List (String × Argument Widget)}
    (hs : ∀ e ∈ entries.map Member.ofEntry, e.Sound)
    (h : ∀ entry ∈ entries, ∀ v ∈ entry.2.held, ∃ u, Layout (.call v) u) :
    ∃ u, Layout (.sequence (entries.map .ofEntry)) u := by
  apply exists_layout_sequence
  intro e he
  have hsound := hs e he
  obtain ⟨entry, hm, rfl⟩ := List.mem_map.mp he
  obtain ⟨u, hu⟩ := exists_layout_value hsound.2 (h entry hm)
  exact ⟨_, .entry .nil .nil hu⟩

theorem exists_layout_body (hw : w.Sound) (h : ∀ v ∈ w.held, ∃ u, Layout (.call v) u) :
    ∃ u, Layout (.body w) u := by
  obtain ⟨entries, ha⟩ : ∃ entries, w.content.Among w.arguments entries := by
    cases w.content with
    | none => exact ⟨_, .none⟩
    | child v => exact ⟨_, .child (List.nil_append _).symm⟩
    | children vs => exact ⟨_, .children (List.nil_append _).symm⟩
  obtain ⟨u, hu⟩ := exists_layout_entries (hw.of_among ha) fun entry he v hv =>
    h v (Widget.mem_held_of_among ha he hv)
  cases ht : w.text? with
  | none => exact ⟨u, .arguments ht ha hu⟩
  | some text =>
    -- Nothing stands inside a widget with a text, so the entries are its arguments.
    have hcontent := (hw.writable.text text ht).2
    rw [hcontent] at ha
    cases ha
    obtain ⟨d, v, hl⟩ := exists_literal text.toList
    exact ⟨_, .text ht .nil hl (.more .nil hu)⟩

theorem exists_layout_call (hw : w.Sound) : ∃ u, Layout (.call w) u := by
  induction hn : sizeOf w using Nat.strongRecOn generalizing w with
  | ind n ih =>
    have hheld : ∀ v ∈ w.held, ∃ u, Layout (.call v) u := by
      intro v hv
      exact ih _ (hn ▸ Widget.sizeOf_lt_of_mem_held hv) (hw.nested hv).sound rfl
    obtain ⟨body, hb⟩ := exists_layout_body hw hheld
    exact ⟨_, .call .none .nil hb⟩

theorem Widget.Whole.exists_writtenAs (hw : w.Whole) : ∃ source : String, w.WrittenAs source.toList := by
  obtain ⟨u, hu⟩ := exists_layout_call hw.sound
  refine ⟨String.ofList u, [], u, [], ?_, .nil, hu, .closed .nil⟩
  simp

end

end WidgetJsx
