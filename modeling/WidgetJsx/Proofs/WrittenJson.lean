import Mathlib
import WidgetJsx.Json.Reading
import WidgetJsx.Json.Writing
import WidgetJsx.Proofs.Fields
import WidgetJsx.Proofs.Path

/-! Written JSON is read back. Each piece of what is written, a bracket, a string or a word, is cut off as one
token whatever follows, and takes the reader one step on; so a value, once its pieces are gone through,
closes in the frames in which it was opened. -/

namespace WidgetJsx.Json

theorem hexValue?_digitChar : ∀ n < 16, hexValue? (Nat.digitChar n) = some n := by decide

theorem readEscape_unit {n : Nat} (h : n < 32) (rest : List Char) :
    readEscape ((writeUnit n).tail ++ rest) =
      .ok (Char.ofNat n, 5) := by
  have hhigh := hexValue?_digitChar (n / 16) (by omega)
  have hlow := hexValue?_digitChar (n % 16) (by omega)
  have hzero : hexValue? '0' = some 0 := by decide
  have hunit : readUnit 0 ('0' :: '0' :: Nat.digitChar (n / 16) :: Nat.digitChar (n % 16) :: rest) =
      .ok n := by
    simp only [readUnit, List.take_succ_cons, List.take_zero, List.mapM_cons, List.mapM_nil, hhigh, hlow,
      hzero, Option.bind_eq_bind, Option.bind_some, Option.pure_def]
    congr 1
    omega
  have htrailing : isTrailing n = false := by
    simp only [isTrailing, Bool.and_eq_false_iff, decide_eq_false_iff_not]
    omega
  have hleading : isLeading n = false := by
    simp only [isLeading, Bool.and_eq_false_iff, decide_eq_false_iff_not]
    omega
  have hunits : readUnits ('0' :: '0' :: Nat.digitChar (n / 16) :: Nat.digitChar (n % 16) :: rest) =
      .ok (Char.ofNat n, 4) := by
    simp only [readUnits, hunit, htrailing, hleading, bind, Except.bind, Bool.false_eq_true, if_false,
      Bool.not_false, if_true, pure, Except.pure]
  change readEscape ('u' :: '0' :: '0' :: Nat.digitChar (n / 16) :: Nat.digitChar (n % 16) :: rest) = _
  rw [readEscape, hunits]

theorem readString_escape {e rest : List Char} {c : Char} (h : readEscape (e ++ rest) = .ok (c, e.length))
    (text : List Char) (length bytes : Nat) : readString text length bytes ('\\' :: e ++ rest) =
      readString (c :: text) (length + ('\\' :: e).length) (bytes + 1 + e.length) rest := by
  rw [List.cons_append, readString, h]
  dsimp only
  rw [List.drop_left, List.length_cons, Nat.add_assoc, Nat.add_comm 1]

theorem readString_writeChar (text : List Char) (length bytes : Nat) (c : Char) (rest : List Char) :
    ∃ bytes', readString text length bytes (writeChar c ++ rest) =
      readString (c :: text) (length + (writeChar c).length) bytes' rest := by
  unfold writeChar
  split
  · exact ⟨_, readString_escape (e := ['"']) rfl _ _ _⟩
  · exact ⟨_, readString_escape (e := ['\\']) rfl _ _ _⟩
  · exact ⟨_, readString_escape (e := ['b']) rfl _ _ _⟩
  · exact ⟨_, readString_escape (e := ['f']) rfl _ _ _⟩
  · exact ⟨_, readString_escape (e := ['n']) rfl _ _ _⟩
  · exact ⟨_, readString_escape (e := ['r']) rfl _ _ _⟩
  · exact ⟨_, readString_escape (e := ['t']) rfl _ _ _⟩
  rename_i hquote hslash _ _ _ _ _
  by_cases hc : c.toNat < 32
  · rw [if_pos hc]
    have hread := readEscape_unit hc rest
    rw [Char.ofNat_toNat] at hread
    exact ⟨_, readString_escape (e := (writeUnit c.toNat).tail) hread _ _ _⟩
  · rw [if_neg hc, List.singleton_append, readString]
    · rw [if_neg hc]
      exact ⟨_, rfl⟩
    · exact hquote
    · exact hslash

theorem readString_written (text : List Char) (length bytes : Nat) (cs rest : List Char) :
    readString text length bytes (cs.flatMap writeChar ++ '"' :: rest) =
      .ok (String.ofList (text.reverse ++ cs), length + (cs.flatMap writeChar).length + 1) := by
  induction cs generalizing text length bytes with
  | nil => simp [readString]
  | cons c cs ih =>
    obtain ⟨bytes', h⟩ := readString_writeChar text length bytes c (cs.flatMap writeChar ++ '"' :: rest)
    rw [List.flatMap_cons, List.append_assoc, h, ih]
    simp [Nat.add_assoc]

section

variable {limit : Nat} {s t u : State} {a b cs : List Char}

/-- Whatever follows, a piece of text is cut into tokens that take a reader from one state to another. -/
def Passes (limit : Nat) (cs : List Char) (s t : State) : Prop :=
  ∀ found place rest, ∃ (placed : List (Token × Place)) (place' : Place),
    Tokens.ofList found place (cs ++ rest) = Tokens.ofList (placed.reverse ++ found) place' rest ∧
      placed.foldlM (State.step limit) s = .ok t

theorem Passes.append (h : Passes limit a s t) (h' : Passes limit b t u) : Passes limit (a ++ b) s u := by
  intro found place rest
  obtain ⟨placed, place', he, hs⟩ := h found place (b ++ rest)
  obtain ⟨placed', place'', he', hs'⟩ := h' (placed.reverse ++ found) place' rest
  refine ⟨placed ++ placed', place'', ?_, ?_⟩
  · rw [List.append_assoc, he, he', List.reverse_append, List.append_assoc]
  · rw [List.foldlM_append, hs]
    exact hs'

theorem passes_token {c : Char} {token : Token} (hspace : isSpace c = false) (hsound : token.isFlawed = false)
    (htoken : ∀ place rest, readToken place c (cs ++ rest) = (token, cs.length + 1))
    (hstep : ∀ place, State.step limit s (token, place) = .ok t) : Passes limit (c :: cs) s t := by
  intro found place rest
  refine ⟨[(token, place.afterBytes 1 (c :: (cs ++ rest)))],
    place.after ((c :: (cs ++ rest)).take (cs.length + 1)), ?_, ?_⟩
  · rw [List.cons_append, Tokens.ofList, hspace, if_neg Bool.false_ne_true, htoken]
    simp only [hsound, Bool.false_eq_true, if_false, Nat.add_sub_cancel, List.drop_left]
    rfl
  · rw [List.foldlM_cons, hstep]
    rfl

theorem passes_mark {c : Char} (hc : c ∈ ['[', ']', '\x7b', '\x7d', ',', ':'])
    (hstep : ∀ place, State.step limit s (.mark c, place) = .ok t) : Passes limit [c] s t := by
  simp only [List.mem_cons, List.not_mem_nil, or_false] at hc
  have hspace : isSpace c = false := by rcases hc with rfl | rfl | rfl | rfl | rfl | rfl <;> rfl
  refine passes_token hspace rfl (fun place rest => ?_) hstep
  rcases hc with rfl | rfl | rfl | rfl | rfl | rfl <;> rfl

theorem passes_string (text : String)
    (hstep : ∀ place, State.step limit s (.string (.ok text), place) = .ok t) :
    Passes limit (writeString text) s t := by
  change Passes limit ('"' :: (text.toList.flatMap writeChar ++ ['"'])) s t
  refine passes_token rfl rfl (fun place rest => ?_) hstep
  have hread := readString_written [] 1 1 text.toList rest
  rw [List.reverse_nil, List.nil_append, String.ofList_toList] at hread
  rw [List.append_assoc, List.singleton_append, readToken, hread, List.length_append, Nat.add_comm 1]
  rfl

end

/-- The state waits for a value, which will stand inside some frames. -/
inductive Awaits : State → List Frame → Prop
  | value (frames : List Frame) : Awaits (.value frames) frames
  | item (first : Bool) (items : List Json) (frames : List Frame) :
      Awaits (.item first items frames) (.list items :: frames)

theorem Awaits.step_eq {s : State} {frames : List Frame} (h : Awaits s frames) {token : Token}
    (ht : token ≠ .mark ']') (limit : Nat) (place : Place) :
    State.step limit s (token, place) = State.openValue limit frames token place := by
  cases h with
  | value => rfl
  | item first items frames =>
    simp [State.step, ht]

/-- No numbers, so many levels at most, and no key of an object twice. -/
def Plain : Nat → Json → Prop
  | _, .null | _, .boolean _ | _, .string _ => True
  | _, .number _ | 0, .array _ | 0, .object _ => False
  | levels + 1, .array items => ∀ v ∈ items, Plain levels v
  | levels + 1, .object fields => fields.keys.Nodup ∧ ∀ entry ∈ fields.entries, Plain levels entry.2

theorem writeList_array (items : List Json) : writeList (.array items) =
    '[' :: separated (items.map writeList) ++ [']'] := by
  rw [writeList]

theorem writeList_object (entries : List (String × Json)) : writeList (.object ⟨entries⟩) =
    '\x7b' :: separated (entries.map fun entry => writeString entry.1 ++ ':' :: writeList entry.2) ++
      ['\x7d'] := by
  rw [writeList]

section

variable {limit : Nat} {s : State} {frames : List Frame}

theorem Awaits.open_list (h : Awaits s frames) (hl : frames.length < limit) (place : Place) :
    State.step limit s (.mark '[', place) = .ok (.item true [] frames) := by
  rw [h.step_eq (by simp), State.openValue]
  simp only [Nat.not_le.mpr hl]
  rfl

theorem Awaits.open_object (h : Awaits s frames) (hl : frames.length < limit) (place : Place) :
    State.step limit s (.mark '\x7b', place) = .ok (.key true ∅ frames) := by
  rw [h.step_eq (by simp), State.openValue]
  simp only [Nat.not_le.mpr hl]
  rfl

theorem passes_rest {vs : List Json}
    (hv : ∀ v ∈ vs, ∀ s frames', Awaits s frames' → frames'.length = frames.length + 1 →
      Passes limit v.writeList s (.close v frames')) (items : List Json) :
    Passes limit (vs.flatMap (',' :: writeList ·) ++ [']']) (.listRest items frames)
      (.close (.array (items.reverse ++ vs)) frames) := by
  induction vs generalizing items with
  | nil =>
    rw [List.append_nil]
    exact passes_mark (by decide) fun _ => rfl
  | cons v vs ih =>
    have hcomma : Passes limit [','] (.listRest items frames) (.item false items frames) :=
      passes_mark (by decide) fun _ => rfl
    have hitem := hv v List.mem_cons_self _ _ (.item false items frames) rfl
    have hrest := ih (fun w hw => hv w (List.mem_cons_of_mem _ hw)) (v :: items)
    have hall := (hcomma.append hitem).append hrest
    simpa using hall

theorem passes_entry {v : Json} {key : String} {first : Bool} {fields : Fields Json}
    (hv : Passes limit v.writeList (.value (.object fields key :: frames))
      (.close v (.object fields key :: frames))) :
    Passes limit (writeString key ++ ':' :: v.writeList) (.key first fields frames)
      (.objectRest (fields.set key v) frames) := by
  have hkey : Passes limit (writeString key) (.key first fields frames) (.colon fields key frames) :=
    passes_string key fun _ => by cases first <;> rfl
  have hcolon : Passes limit [':'] (.colon fields key frames) (.value (.object fields key :: frames)) :=
    passes_mark (by decide) fun _ => rfl
  have hall := (hkey.append hcolon).append hv
  rwa [List.append_assoc] at hall

theorem passes_entries {entries : List (String × Json)}
    (hv : ∀ entry ∈ entries, ∀ frames' : List Frame, frames'.length = frames.length + 1 →
      Passes limit entry.2.writeList (.value frames') (.close entry.2 frames')) (fields : Fields Json) :
    Passes limit (entries.flatMap (fun entry => ',' :: (writeString entry.1 ++ ':' :: entry.2.writeList)) ++
      ['\x7d']) (.objectRest fields frames) (.close (.object (fields.setAll entries)) frames) := by
  induction entries generalizing fields with
  | nil => exact passes_mark (by decide) fun _ => rfl
  | cons entry entries ih =>
    have hcomma : Passes limit [','] (.objectRest fields frames) (.key false fields frames) :=
      passes_mark (by decide) fun _ => rfl
    have hentry : Passes limit (writeString entry.1 ++ ':' :: entry.2.writeList) (.key false fields frames)
        (.objectRest (fields.set entry.1 entry.2) frames) :=
      passes_entry (hv entry List.mem_cons_self _ rfl)
    have hrest := ih (fun e he => hv e (List.mem_cons_of_mem _ he)) (fields.set entry.1 entry.2)
    have hall := (hcomma.append hentry).append hrest
    simpa [Fields.setAll] using hall

theorem passes_word {c : Char} {cs : List Char} {v : Json} (hs : Awaits s frames) (hspace : isSpace c = false)
    (hword : ∀ place rest, readToken place c (cs ++ rest) = (.scalar (.ok v), cs.length + 1)) :
    Passes limit (c :: cs) s (.close v frames) :=
  passes_token hspace rfl hword fun _ => by rw [hs.step_eq (by simp)]; rfl

theorem passes_null (hs : Awaits s frames) : Passes limit (writeList .null) s (.close .null frames) := by
  rw [writeList]
  exact @passes_word limit s frames 'n' ['u', 'l', 'l'] _ hs rfl fun _ _ => rfl

theorem passes_boolean (hs : Awaits s frames) (value : Bool) :
    Passes limit (writeList (.boolean value)) s (.close (.boolean value) frames) := by
  rw [writeList]
  cases value with
  | false => exact @passes_word limit s frames 'f' ['a', 'l', 's', 'e'] _ hs rfl fun _ _ => rfl
  | true => exact @passes_word limit s frames 't' ['r', 'u', 'e'] _ hs rfl fun _ _ => rfl

theorem passes_text (hs : Awaits s frames) (text : String) :
    Passes limit (writeList (.string text)) s (.close (.string text) frames) := by
  rw [writeList]
  exact passes_string text fun _ => by rw [hs.step_eq (by simp)]; rfl

theorem passes_array {items : List Json} (hs : Awaits s frames) (hl : frames.length < limit)
    (hv : ∀ v ∈ items, ∀ s frames', Awaits s frames' → frames'.length = frames.length + 1 →
      Passes limit v.writeList s (.close v frames')) :
    Passes limit (writeList (.array items)) s (.close (.array items) frames) := by
  rw [writeList_array]
  have hopen : Passes limit ['['] s (.item true [] frames) := passes_mark (by decide) (hs.open_list hl)
  cases items with
  | nil => exact hopen.append (passes_mark (by decide) fun _ => rfl)
  | cons v items =>
    have hfirst := hv v List.mem_cons_self _ _ (.item true [] frames) rfl
    have hrest := passes_rest (fun w hw => hv w (List.mem_cons_of_mem _ hw)) [v]
    have hall := (hopen.append hfirst).append hrest
    rw [separated, List.map_cons, Expression.intercalate_cons, List.flatMap_map]
    simpa using hall

theorem passes_object {entries : List (String × Json)} (hs : Awaits s frames) (hl : frames.length < limit)
    (hkeys : (entries.map Prod.fst).Nodup)
    (hv : ∀ entry ∈ entries, ∀ frames' : List Frame, frames'.length = frames.length + 1 →
      Passes limit entry.2.writeList (.value frames') (.close entry.2 frames')) :
    Passes limit (writeList (.object ⟨entries⟩)) s (.close (.object ⟨entries⟩) frames) := by
  rw [writeList_object]
  have hopen : Passes limit ['\x7b'] s (.key true ∅ frames) := passes_mark (by decide) (hs.open_object hl)
  cases entries with
  | nil => exact hopen.append (passes_mark (by decide) fun _ => rfl)
  | cons entry entries =>
    have hfirst := @passes_entry limit frames entry.2 entry.1 true ∅ (hv entry List.mem_cons_self _ rfl)
    have hrest := passes_entries (fun e he => hv e (List.mem_cons_of_mem _ he))
      ((∅ : Fields Json).set entry.1 entry.2)
    have hall := (hopen.append hfirst).append hrest
    have hfields : ((∅ : Fields Json).set entry.1 entry.2).setAll entries = ⟨entry :: entries⟩ :=
      Fields.ofList_of_nodup hkeys
    rw [hfields] at hall
    rw [separated, List.map_cons, Expression.intercalate_cons, List.flatMap_map]
    simpa using hall

theorem passes_value {levels : Nat} {v : Json} (h : Plain levels v) (hs : Awaits s frames)
    (hl : frames.length + levels ≤ limit) : Passes limit v.writeList s (.close v frames) := by
  induction levels generalizing v s frames with
  | zero =>
    cases v with
    | null => exact passes_null hs
    | boolean value => exact passes_boolean hs value
    | string text => exact passes_text hs text
    | number | array | object => exact False.elim h
  | succ levels ih =>
    cases v with
    | null => exact passes_null hs
    | boolean value => exact passes_boolean hs value
    | string text => exact passes_text hs text
    | number n => exact False.elim h
    | array items =>
      exact passes_array hs (by omega) fun v hv _ _ hs' hl' => ih (h v hv) hs' (by omega)
    | object fields =>
      obtain ⟨hkeys, hvalues⟩ := h
      exact passes_object hs (by omega) hkeys fun e he frames' hl' =>
        ih (hvalues e he) (.value frames') (by omega)

end

/-- What is written of a value without numbers is read as the value again. -/
theorem read_write {levels limit : Nat} {v : Json} (h : Plain levels v) (hl : levels ≤ limit) :
    read limit v.write = .ok v := by
  have hpass : Passes limit v.writeList (.value []) (.close v []) :=
    passes_value h (.value []) ((Nat.zero_add levels).trans_le hl)
  obtain ⟨placed, place, htokens, hsteps⟩ := hpass [] .start []
  rw [read, write, String.toList_ofList]
  rw [List.append_nil, List.append_nil, Tokens.ofList, List.reverse_reverse] at htokens
  rw [htokens]
  change (placed.foldlM (State.step limit) (.value []) >>= fun state => state.result place) = _
  rw [hsteps]
  rfl

end WidgetJsx.Json
