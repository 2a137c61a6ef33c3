import WidgetJsx.Proofs.Balanced
import WidgetJsx.Proofs.Layout
import WidgetJsx.Proofs.Listed
import WidgetJsx.Proofs.Recognition

/-! Every layout of a tree is read as that tree. Members of a sequence are read one by one, the widgets
among them by a reader that is one level further in, so the proof goes by the depth that is left. -/

namespace WidgetJsx

open Expression Text

namespace Content

variable {arguments : Fields (Argument Widget)} {content : Content Widget}
  {entries : List (String × Argument Widget)}

theorem split_among (ha : content.Among arguments entries) (hn : arguments.keys.Nodup)
    (hc : content.Apart arguments) : (entries.map Prod.fst).Nodup ∧
      split ⟨entries⟩ = (arguments, content) := by
  -- The content goes in under a key that is not used, so erasing that key takes out nothing else.
  have hinsert : ∀ {front back : List (String × Argument Widget)} {key : String},
      arguments.entries = front ++ back → key ∉ arguments.keys → ∀ value : Argument Widget,
        ((front ++ (key, value) :: back).map Prod.fst).Nodup ∧
          (⟨front ++ (key, value) :: back⟩ : Fields (Argument Widget)).erase key = arguments := by
    intro front back key he hk value
    rw [Fields.keys, he] at hn hk
    refine ⟨Fields.nodup_insert hn hk value, ?_⟩
    have hfront : ∀ entry ∈ front, entry.1 ≠ key := by
      rintro entry hm rfl
      exact hk (List.mem_map_of_mem (List.mem_append_left _ hm))
    rw [Fields.erase_append hfront, ← he]
  cases ha with
  | none =>
    refine ⟨hn, ?_⟩
    rcases split_cases arguments with ⟨w, hg, -⟩ | ⟨-, ws, hg, -⟩ | ⟨-, -, hs⟩
    · exact absurd (Fields.mem_of_get? hg) (hc.1 w)
    · exact absurd (Fields.mem_of_get? hg) (hc.2 ws)
    · exact hs
  | @child front back w he =>
    obtain ⟨hnd, herase⟩ := hinsert he hc (.widget w)
    refine ⟨hnd, ?_⟩
    have hget : (⟨front ++ ("child", .widget w) :: back⟩ : Fields (Argument Widget)).get? "child" =
        some (.widget w) := (Fields.get?_eq_some_iff hnd).mpr (by simp)
    rw [split, hget]
    simp only [herase]
  | @children front back ws he =>
    obtain ⟨hnd, herase⟩ := hinsert he hc.1 (.widgets ws)
    refine ⟨hnd, ?_⟩
    have hget : (⟨front ++ ("children", .widgets ws) :: back⟩ : Fields (Argument Widget)).get?
        "children" = some (.widgets ws) := (Fields.get?_eq_some_iff hnd).mpr (by simp)
    rcases split_cases ⟨front ++ ("children", .widgets ws) :: back⟩ with
      ⟨w, hg, -⟩ | ⟨-, vs, hg, hs⟩ | ⟨-, hno, -⟩
    · refine absurd (Fields.mem_of_get? hg) fun hm => hc.2 w ?_
      rw [he]
      simpa using hm
    · obtain rfl : vs = ws := by simpa using hg.symm.trans hget
      rw [hs, herase]
    · exact absurd hget (hno ws)

end Content

section

variable {α : Type}

/-- The item reader takes each member where it is written. -/
def ReadsMember (item : Cursor → Except Fault (α × Nat)) (e : Member) (a : α) : Prop :=
  ∀ {u behind rest : List Char}, Layout (.member e) u → Follows rest →
    item ⟨behind, u ++ rest⟩ = .ok (a, u.length)

theorem Layout.listed {es : List Member} {u : List Char} (h : Layout (.sequence es) u) :
    Listed (fun e u => Layout (.member e) u) es u := by
  induction es generalizing u with
  | nil =>
    cases h with
    | nil hg => exact .nil hg
  | cons e es ih =>
    cases h with
    | cons hg hu hv =>
      cases hv with
      | last ht => exact .last hg hu ht
      | more ht hw => exact .more hg hu ht (ih hw)

theorem readAll_sequence {item : Cursor → Except Fault (α × Nat)} {f : Member → α}
    {es : List Member} (hs : ∀ e ∈ es, e.Sound) (hf : ∀ e ∈ es, ReadsMember item e (f e))
    {u : List Char} (h : Layout (.sequence es) u) (found : List α) (behind : List Char) :
    readAll item found ⟨behind, u⟩ = .ok (found.reverse ++ es.map f) := by
  have hstart : Listed.Starting fun _ => True := ⟨fun _ _ => trivial, fun _ => trivial⟩
  exact h.listed.readAll_eq hstart (fun e he u hu => hu.firm_member (hs e he))
    (fun e he {u behind rest} hu _ hr => hf e he hu hr) trivial found

end

section

variable {w : Widget} {body u rest : List Char}

theorem Layout.closing? (h : Layout (.body w) body) (hw : w.Sound) (rest : List Char) :
    Expression.closing? '\n' ('(' :: (body ++ ')' :: rest)) = some (body.length + 1) := by
  have hc : Crosses ['('] body (')' :: rest) :=
    h.crosses hw (show isNameChar '(' = false by decide) (shut_cons (c := '(') rfl rest)
  exact hc.closing? rfl '\n'

theorem Widget.Nested.unreserved (h : w.Nested) : Unreserved [w.name.toList] := by
  intro word hw he
  have hname : w.name.toList = word.toList := by simpa using he
  rw [← String.toList_inj.mp hname] at hw
  exact not_mem_reserved h.isWidgetName hw

variable {descend : Call → Except Fault Widget}

/-- The widget is read from every argument list that is written for it. -/
def Reads (descend : Call → Except Fault Widget) (w : Widget) : Prop :=
  ∀ {body : List Char}, Layout (.body w) body →
    ∀ behind, descend ⟨w.name, ⟨'(' :: behind, body⟩⟩ = .ok w

theorem readForm_widget (h : Layout (.call w) u) (hw : w.Nested) (hd : Reads descend w)
    (behind rest : List Char) : ∃ call,
      readForm ⟨behind, u ++ rest⟩ = .ok (.widget call, u.length) ∧ descend call = .ok w := by
  cases h with
  | @call _ keyword gap body hk hg hb =>
    have hf := readForm_call (pathOf_singleton hw.isName) hw.unreserved hg hk
      (hb.closing? hw.sound rest) behind
    rw [String.ofList_toList, hw.isWidgetName] at hf
    rw [List.append_assoc]
    exact ⟨_, hf, hd hb _⟩

theorem readItem_widget (h : Layout (.call w) u) (hw : w.Nested) (hd : Reads descend w)
    (behind rest : List Char) : ∃ call,
      readItem ⟨behind, u ++ rest⟩ = .ok (some call, u.length) ∧ descend call = .ok w := by
  cases h with
  | @call _ keyword gap body hk hg hb =>
    have hi := readItem_written (pathOf_singleton hw.isName) hw.unreserved hg hk
      (hb.closing? hw.sound rest) (by rw [String.ofList_toList, hw.isWidgetName]) behind
    rw [String.ofList_toList] at hi
    rw [List.append_assoc]
    exact ⟨_, hi, hd hb _⟩

/-- A member of a list as it is read. -/
def Member.widget? : Member → Option Widget
  | .item w => some w
  | .entry _ _ => none

/-- A member of an argument list as it is read. -/
def Member.toEntry : Member → Entry
  | .entry key value => ⟨some key, value⟩
  | .item w => ⟨none, .widget w⟩

theorem readWidgets_layout {ws : List Widget} (hw : ∀ w ∈ ws, w.Nested)
    (hd : ∀ w ∈ ws, Reads descend w) (h : Layout (.sequence (ws.map .item)) u)
    (behind : List Char) : readWidgets descend ⟨behind, u⟩ = .ok ws := by
  have hfound : ([].reverse ++ (ws.map Member.item).map Member.widget?).filterMap id = ws := by
    simp [Function.comp_def, Member.widget?]
  unfold readWidgets
  rw [readAll_sequence (Member.sound_items hw) (f := Member.widget?) ?_ h]
  · exact congrArg Except.ok hfound
  · intro e he u behind rest hl _
    obtain ⟨w, hm, rfl⟩ := List.mem_map.mp he
    cases hl with
    | item hl =>
      obtain ⟨call, hi, hc⟩ := readItem_widget hl (hw w hm) (hd w hm) behind rest
      change (readItem _ >>= _) = _
      rw [hi]
      change (descend call >>= _) = _
      rw [hc]
      rfl

theorem readArgument_value {a : Argument Widget} (h : Layout (.value a) u) (ha : a.Sound)
    (hd : ∀ v ∈ a.held, Reads descend v) {behind : List Char}
    (hb : isNameChar (behind.headD '\n') = false) (hr : Follows rest) :
    ∃ form, readForm ⟨behind, u ++ rest⟩ = .ok (form, u.length) ∧
      readArgument descend form = .ok a := by
  cases h with
  | @string text d u hl =>
    refine ⟨_, hl.readForm_eq hb hr.breaks, ?_⟩
    rw [String.ofList_toList]
    rfl
  | number text =>
    refine ⟨_, IsNumber.readForm_eq ha.1 hr.breaks behind, ?_⟩
    rw [String.ofList_toList]
    rfl
  | boolean value => exact ⟨_, readForm_boolean value hr.breaks behind, rfl⟩
  | @reference path keyword hk =>
    obtain ⟨names, hp, hl, hu⟩ := ha.1
    rw [List.append_assoc]
    refine ⟨_, readForm_reference hk hp hu hl hr behind, ?_⟩
    rw [String.ofList_toList]
    rfl
  | @construction text keyword hk =>
    obtain ⟨names, path, gap, body, hp, hu, hg, hw, ht, hc⟩ := ha.1
    have hcross := crosses_of_closing? (c := '(') rfl hc [] rest
    rw [ht] at hk ⊢
    rw [List.append_assoc]
    refine ⟨_, readForm_call hp hu hg hk (hcross.closing? rfl '\n') behind, ?_⟩
    rw [hw, ← ht, String.ofList_toList]
    rfl
  | @widget w u hl =>
    have hm : w ∈ (Argument.widget w).held := List.mem_singleton_self w
    obtain ⟨call, hf, hc⟩ := readForm_widget hl (ha.2 w hm) (hd w hm) behind rest
    refine ⟨_, hf, ?_⟩
    change (descend call >>= _) = _
    rw [hc]
    rfl
  | @widgets ws keyword types items hk ht hl =>
    have hcross : Crosses ['['] items (']' :: rest) :=
      hl.crosses (Member.sound_items ha.2) trivial (shut_cons (c := '[') rfl rest)
    rw [List.append_assoc]
    refine ⟨_, readForm_list ht hk (hcross.closing? rfl '\n') behind, ?_⟩
    change (readWidgets descend _ >>= _) = _
    rw [readWidgets_layout ha.2 hd hl]
    rfl

theorem readEntry_keyed {key : String} {a : Argument Widget} {before after next : List Char}
    (hk : IsName key.toList) (hb : Trivia before) (ha : Trivia after) (hn : Firm next) {form : Form}
    {n : Nat} {behind : List Char}
    (hf : readForm ⟨(key.toList ++ (before ++ ':' :: after)).reverse ++ behind, next⟩ = .ok (form, n))
    (hv : readArgument descend form = .ok a) :
    readEntry descend ⟨behind, key.toList ++ (before ++ ':' :: after) ++ next⟩ =
      .ok (⟨some key, a⟩, (key.toList ++ (before ++ ':' :: after)).length + n) := by
  have hkey := readKey?_written hk hb ha hn behind
  have hsame : key.toList ++ (before ++ ':' :: (after ++ next)) =
      key.toList ++ (before ++ ':' :: after) ++ next := by simp
  rw [String.ofList_toList, hsame] at hkey
  rw [readEntry_eq, entryLead, hkey]
  simp only [Cursor.forward_append]
  rw [hf]
  change (readArgument descend form >>= _) = _
  rw [hv]
  rfl

theorem readEntry_member {key : String} {a : Argument Widget}
    (h : Layout (.member (.entry key a)) u) (he : (Member.entry key a).Sound)
    (hd : ∀ v ∈ a.held, Reads descend v) (hr : Follows rest) (behind : List Char) :
    readEntry descend ⟨behind, u ++ rest⟩ = .ok (⟨some key, a⟩, u.length) := by
  cases h with
  | @entry _ _ before after u hb ha hu =>
    have hlead : key.toList ++ (before ++ ':' :: (after ++ u)) ++ rest =
        key.toList ++ (before ++ ':' :: after) ++ (u ++ rest) := by simp
    have hstart : isNameChar (((key.toList ++ (before ++ ':' :: after)).reverse ++ behind).headD '\n') =
        false := by
      have hcolon : isNameChar ((':' :: (before.reverse ++ (key.toList.reverse ++ behind))).headD '\n') =
          false := show isNameChar ':' = false by decide
      simpa using ha.previous hcolon
    obtain ⟨form, hf, hv⟩ := readArgument_value hu he.2 hd hstart hr
    have hn : (key.toList ++ (before ++ ':' :: (after ++ u))).length =
        (key.toList ++ (before ++ ':' :: after)).length + u.length := by
      rw [← List.length_append]
      simp
    rw [hlead, hn]
    exact readEntry_keyed he.1 hb ha ((hu.firm_value he.2).append rest) hf hv

theorem readEntries_layout {entries : List (String × Argument Widget)}
    (hs : ∀ e ∈ entries.map Member.ofEntry, e.Sound)
    (hd : ∀ entry ∈ entries, ∀ v ∈ entry.2.held, Reads descend v)
    (h : Layout (.sequence (entries.map .ofEntry)) u) (behind : List Char) :
    readEntries descend ⟨behind, u⟩ = .ok (entries.map fun entry => ⟨some entry.1, entry.2⟩) := by
  have hmap : [].reverse ++ (entries.map Member.ofEntry).map Member.toEntry =
      entries.map fun entry => ⟨some entry.1, entry.2⟩ := by
    simp [Function.comp_def, Member.ofEntry, Member.toEntry]
  unfold readEntries
  rw [readAll_sequence hs (f := Member.toEntry) ?_ h, hmap]
  intro e he u behind rest hl hr
  obtain ⟨entry, hm, rfl⟩ := List.mem_map.mp he
  exact readEntry_member hl (hs _ he) (hd entry hm) hr behind

theorem named_entries {entries : List (String × Argument Widget)} (h : (entries.map Prod.fst).Nodup) :
    Entry.named (entries.map fun entry => ⟨some entry.1, entry.2⟩) = ⟨entries⟩ := by
  have hmap : (entries.map fun entry : String × Argument Widget => (⟨some entry.1, entry.2⟩ : Entry)).filterMap
      (fun entry => entry.key?.map (·, entry.value)) = entries := by
    simp [List.filterMap_map]
  rw [Entry.named, hmap, Fields.ofList_of_nodup h]

theorem readLeadingText?_entries {entries : List (String × Argument Widget)}
    (hs : ∀ e ∈ entries.map Member.ofEntry, e.Sound)
    (h : Layout (.sequence (entries.map .ofEntry)) u) (name : String) (behind : List Char) :
    readLeadingText? ⟨name, ⟨behind, u⟩⟩ = .ok none := by
  -- Behind a gap with a comma in it the reader stands at the comma, or else at what follows.
  have hgap : ∀ {gap rest : List Char}, Separators gap → Solid isBlank rest →
      (∀ p, startsString p rest = false) →
        ∀ p, startsString p ((gap ++ rest).drop (triviaLength (gap ++ rest))) = false := by
    intro gap rest hg hr hs p
    rcases hg.trivia_or with ht | ⟨front, back, rfl, ht⟩
    · have hl : triviaLength (gap ++ rest) = gap.length := ht.gapLength_eq (by decide) hr
      rw [hl, List.drop_left]
      exact hs p
    · have hl : triviaLength (front ++ (',' :: back ++ rest)) = front.length :=
        ht.gapLength_eq (by decide) (solid_cons (by decide) (by decide) _)
      rw [List.append_assoc, hl, List.drop_left]
      exact startsString_eq_false (by decide) (by decide) _ _
  have hno : ∀ p, startsString p (u.drop (triviaLength u)) = false := by
    cases entries with
    | nil =>
      cases h with
      | nil hg => simpa using hgap hg solid_nil fun _ => rfl
    | cons entry entries =>
      cases h with
      | @cons _ _ gap u v hg hu hv =>
        have he := hs _ (List.mem_cons_self (l := entries.map Member.ofEntry))
        refine hgap hg ((hu.firm_member he).append v).solid ?_
        cases hu with
        | @entry key value before after u hb ha hu =>
          have hcolon : Breaks (before ++ ':' :: (after ++ u) ++ v) := by
            rw [List.append_assoc]
            exact hb.breaks (breaks_cons (by decide) (by decide) (by decide) _)
          intro p
          rw [List.append_assoc]
          exact IsName.startsString_eq_false he.1 (fun _ q hq => (hcolon q hq).2.2) p
  have hno := hno ((Cursor.mk behind u).forward (triviaLength u)).previous
  simp only [readLeadingText?, Cursor.forward_ahead, hno, Bool.and_false, Bool.false_eq_true, if_false]
  rfl

theorem readEntries_rest {entries : List (String × Argument Widget)}
    (hs : ∀ e ∈ entries.map Member.ofEntry, e.Sound)
    (hd : ∀ entry ∈ entries, ∀ v ∈ entry.2.held, Reads descend v)
    (h : Layout (.rest (entries.map .ofEntry)) u) {behind : List Char} :
    (if ((Cursor.mk behind u).forward (triviaLength u)).next? = some ',' then
        readEntries descend (((Cursor.mk behind u).forward (triviaLength u)).forward 1)
      else .ok []) = .ok (entries.map fun entry => ⟨some entry.1, entry.2⟩) := by
  generalize hes : entries.map Member.ofEntry = es at h
  cases h with
  | last hg =>
    obtain rfl : entries = [] := List.map_eq_nil_iff.mp hes
    have hl : triviaLength u = u.length := by
      have := hg.gapLength_eq (by decide) solid_nil
      rwa [List.append_nil] at this
    have hend : ((Cursor.mk behind u).forward (triviaLength u)).next? ≠ some ',' := by
      rw [Cursor.next?, Cursor.forward_ahead, hl, List.drop_length]
      simp
    rw [if_neg hend]
    rfl
  | @more _ gap v hg hv =>
    subst hes
    have hl : triviaLength (gap ++ ',' :: v) = gap.length :=
      hg.gapLength_eq (by decide) (solid_cons (by decide) (by decide) _)
    have hcomma : (Cursor.mk (gap.reverse ++ behind) (',' :: v)).next? = some ',' := rfl
    rw [hl, Cursor.forward_append, if_pos hcomma]
    exact readEntries_layout hs hd hv _

theorem Widget.mk_eq (w : Widget) : Widget.mk w.name w.arguments w.text? w.content = w := by
  cases w
  rfl

theorem readBody_layout (hw : w.Sound) (hd : ∀ v ∈ w.held, Reads descend v) :
    Reads (readBody descend) w := by
  intro body h behind
  have hentries : ∀ entry ∈ w.arguments.entries, ∀ v ∈ entry.2.held, Reads descend v := by
    intro entry he v hv
    exact hd v (List.mem_append_left _ (List.mem_flatMap.mpr ⟨entry, he, hv⟩))
  cases h with
  | @text _ text d gap u v ht hg hl hv =>
    obtain ⟨hname, hcontent⟩ := hw.writable.text text ht
    have hfollows := hv.follows shut_nil
    rw [List.append_nil] at hfollows
    have hstart : isNameChar ((gap.reverse ++ '(' :: behind).headD '\n') = false :=
      hg.previous (show isNameChar '(' = false by decide)
    obtain ⟨hstring, hlength, htext⟩ := hl.reads hstart hfollows.breaks
    have hgap : triviaLength (gap ++ (u ++ v)) = gap.length :=
      hg.gapLength_eq (by decide) (hl.firm.append v).solid
    have hlead : readLeadingText? ⟨w.name, ⟨'(' :: behind, gap ++ (u ++ v)⟩⟩ = .ok (some (text,
        (Cursor.mk (u.reverse ++ (gap.reverse ++ '(' :: behind)) v).forward (triviaLength v))) := by
      simp only [readLeadingText?, hgap, Cursor.forward_append]
      have hstring : startsString (Cursor.mk (gap.reverse ++ '(' :: behind) (u ++ v)).previous
          (u ++ v) = true := hstring
      rw [hname, Bool.true_and, if_pos hstring]
      simp only [hlength, htext, Cursor.forward_append, String.ofList_toList]
      rfl
    rw [readBody_text hlead, readEntries_rest hw.members hentries hv]
    change Except.ok _ = _
    rw [named_entries hw.writable.nodup, ← ht, ← hcontent, w.mk_eq]
  | @arguments _ entries u ht ha hl =>
    have hsound := hw.of_among ha
    rw [readBody_split (readLeadingText?_entries hsound hl _ _), readEntries_layout hsound ?_ hl]
    · obtain ⟨hnd, hsplit⟩ := Content.split_among ha hw.writable.nodup (hw.writable.content ht)
      change Except.ok _ = _
      rw [named_entries hnd, hsplit, ← ht, w.mk_eq]
    · exact fun entry he v hv => hd v (Widget.mem_held_of_among ha he hv)

theorem reads_readWidget {allowed left : Nat} (hw : w.Sound) (hd : w.depth ≤ left) :
    Reads (readWidget allowed left) w := by
  induction left generalizing w with
  | zero =>
    have := w.depth_pos
    omega
  | succ left ih =>
    intro body h behind
    refine readBody_layout hw (fun v hv => ?_) h behind
    exact ih (hw.nested hv).sound (Widget.depth_le_succ_iff.mp hd v hv)

end

theorem Widget.Whole.rootCall {w : Widget} (h : w.Whole) {lead keyword gap body trail : List Char}
    (hl : Trivia lead) (hk : Keyword (w.name.toList ++ (gap ++ '(' :: (body ++ [')']))) keyword)
    (hg : Trivia gap) (hb : Layout (.body w) body) (ht : Terminators trail) :
    RootCall (lead ++ (keyword ++ (w.name.toList ++ (gap ++ '(' :: (body ++ [')']))) ++ trail))
      lead keyword w.name.toList gap (body ++ ')' :: trail) (body.length + 1) where
  eq := by simp
  isLead := hl
  isKeyword := by
    have := hk.append (h.isName.firm.append _).ne_nil trail
    simpa using this
  isName := h.isName
  not_keyword := by
    intro word hw he
    exact h.not_keyword (String.toList_inj.mp he ▸ hw)
  isGap := hg
  closes := by
    rw [← hb.closing? h.sound trail]
    exact closing?_previous (k := ')') rfl _ _ _
  ends := by
    rw [← List.drop_drop, List.drop_left]
    exact ht

/-- Whatever source text a tree is written as, that tree is read from it, unless the text or the tree
exceeds its limit. -/
theorem Widget.read_written {limits : Limits} {source : String} {w : Widget} (hw : w.Whole)
    (hs : w.WrittenAs source.toList) (hbytes : source.utf8ByteSize ≤ limits.bytes)
    (hdepth : w.depth ≤ limits.depth) : Widget.read limits source = .ok w := by
  obtain ⟨lead, text, trail, hs, hl, ht, he⟩ := hs
  cases ht with
  | @call _ keyword gap body hk hg hb =>
    obtain ⟨rest, hc, hend⟩ := (hw.rootCall hl hk hg hb he).readCall_eq
    have harguments : rootArguments lead keyword w.name.toList gap (body ++ ')' :: trail)
        (body.length + 1) = ⟨'(' :: (gap.reverse ++ (w.name.toList.reverse ++
          (lead ++ keyword).reverse)), body⟩ := by
      rw [rootArguments, Nat.add_sub_cancel, List.take_left]
    have hname := isDotted_eq_false hw.isName
    rw [← hs, String.ofList_toList, harguments] at hc
    exact read_eq_ok_iff.mpr ⟨hbytes, _, rest, hc, hname, reads_readWidget hw.sound hdepth hb _, hend⟩

theorem Widget.read_written_card :
    let root : Widget := ⟨"Card", ⟨[("at", .reference "a.b"), ("gap", .number "-1.5")]⟩, none,
      .child ⟨"Text", ⟨[]⟩, some "it's", .none⟩⟩
    let source := "const Card(at: a.b, child: Text('it\\'s',) , gap:-1.5);"
    root.Whole ∧ root.WrittenAs source.toList ∧ Widget.read .standard source = .ok root := by
  intro root source
  have hreference : Argument.Writable (.reference "a.b") :=
    ⟨[['a'], ['b']], ⟨by decide, by decide, by decide⟩, by decide, by unfold Unreserved; decide⟩
  have hnumber : Argument.Writable (.number "-1.5") := by
    have he : "-1.5".toList = ['-'] ++ (['1'] ++ '.' :: ['5']) := by decide
    have hd : ∀ c, c.isDigit = true → DigitsOf Char.isDigit [c] :=
      fun c hc => ⟨by simp, by simpa using hc⟩
    rw [Argument.Writable, he]
    exact .decimal (.inr rfl) (hd '1' rfl) (hd '5' rfl)
  have hcard : root.Writable :=
    { nodup := by decide
      isName := by decide
      argument := by
        intro entry he
        rcases List.mem_pair.mp he with rfl | rfl
        · exact hreference
        · exact hnumber
      held := by
        intro v hv
        obtain rfl := List.mem_singleton.mp hv
        exact ⟨by decide, by decide⟩
      text := by simp
      content := fun _ => by
        change "child" ∉ _
        decide }
  have hsound : root.Sound := by
    refine Widget.sound_iff.mpr ⟨hcard, fun v hv => ?_⟩
    obtain rfl := List.mem_singleton.mp hv
    exact Widget.sound_bare fun _ _ => by decide
  have hwhole : root.Whole := ⟨by decide, by decide, hsound⟩
  have hblank : Trivia [' '] := .fill (by decide) .nil
  have hat : Layout (.member (.entry "at" (.reference "a.b"))) "at: a.b".toList :=
    @Layout.entry _ _ [] [' '] _ .nil hblank (.reference .none)
  have hgap : Layout (.member (.entry "gap" (.number "-1.5"))) "gap:-1.5".toList :=
    @Layout.entry _ _ [] [] _ .nil .nil (.number _)
  have hliteral : Delimiter.LiteralOf ⟨'\'', false, false⟩ "it's".toList "'it\\'s'".toList :=
    ⟨by decide, ['i', 't', '\\', '\'', 's'], by decide,
      .plain (by decide) (by decide) (.plain (by decide) (by decide)
        (.escaped rfl (.plain (by decide) (by decide) .nil)))⟩
  have hcall : Layout (.call ⟨"Text", ⟨[]⟩, some "it's", .none⟩) "Text('it\\'s',)".toList :=
    @Layout.call _ [] [] "'it\\'s',".toList .none .nil
      (@Layout.text _ _ _ [] _ [','] rfl .nil hliteral (@Layout.more _ [] [] .nil (.nil .nil)))
  have hchild : Layout (.member (.entry "child" (.widget ⟨"Text", ⟨[]⟩, some "it's", .none⟩)))
      "child: Text('it\\'s',)".toList :=
    @Layout.entry _ _ [] [' '] _ .nil hblank (.widget hcall)
  have hbody : Layout (.body root) "at: a.b, child: Text('it\\'s',) , gap:-1.5".toList :=
    .arguments rfl (@Content.Among.child _ [("at", .reference "a.b")] [("gap", .number "-1.5")] _ rfl)
      (@Layout.cons _ _ [] _ _ .nil hat (@Layout.more _ [] _ .nil
        (@Layout.cons _ _ [' '] _ _ (Trivia.separators hblank) hchild (@Layout.more _ [' '] _ hblank
          (@Layout.cons _ _ [' '] _ _ (Trivia.separators hblank) hgap (.last .nil))))))
  have hlayout := @Layout.call root ("const".toList ++ [' ']) [] _
    (.word (by decide) hblank (ends_cons (by decide) _)) .nil hbody
  have hsource : source.toList = [] ++ (("const".toList ++ [' '] ++ ("Card".toList ++ ([] ++
      '(' :: ("at: a.b, child: Text('it\\'s',) , gap:-1.5".toList ++ [')'])))) ++ [';']) := by
    decide
  have hwritten : root.WrittenAs source.toList :=
    ⟨[], _, [';'], hsource, .nil, hlayout, .closed (.fill (by decide) .nil)⟩
  have hdepth : root.depth ≤ Limits.standard.depth := by
    refine (Widget.depth_le_succ_iff (n := 99)).mpr fun v hv => ?_
    obtain rfl := List.mem_singleton.mp hv
    exact (Widget.depth_eq_one rfl).trans_le (by decide)
  exact ⟨hwhole, hwritten, read_written hwhole hwritten (by cbv) hdepth⟩

end WidgetJsx
