import WidgetJsx.Proofs.Descent

/-! The readers, with a record of the places that their cursors come by. A recorded run takes each step that the
reader takes and comes to the same outcome, and in addition it keeps every offset at which a cursor stands, on
the way to a value, behind it, or in front of what stops the reading. -/

namespace WidgetJsx

open Expression Text

namespace Text.Cursor

/-- The number of characters in front of the cursor. Offsets count characters, so that each lies between two. -/
def start (s : Cursor) : Nat := s.behind.length

/-- The number of characters in front of the bound of the cursor. -/
def stop (s : Cursor) : Nat := s.behind.length + s.ahead.length

end Text.Cursor

/-- A reading, and the offsets in the source that it comes by. -/
structure Run (α : Type) where
  visits : Nat → Prop
  outcome : Except Fault α

namespace Run

variable {α β : Type}

instance : Monad Run where
  pure a := ⟨fun _ => False, .ok a⟩
  bind x f :=
    match x.outcome with
    | .ok a => ⟨fun p => x.visits p ∨ (f a).visits p, (f a).outcome⟩
    | .error fault => ⟨x.visits, .error fault⟩

/-- A reading that moves no cursor. -/
def still (x : Except Fault α) : Run α := ⟨fun _ => False, x⟩

/-- The cursor moves over the next `n` characters, whether there are as many or not. -/
def passes (s : Cursor) (n : Nat) : Run Unit := ⟨fun p => s.start ≤ p ∧ p ≤ s.start + n, .ok ()⟩

/-- The cursor moves over the items that the matching scan passes, and over what is left of the text if a string
literal that is never closed comes next. -/
def matching (s : Cursor) : Run Unit where
  visits p := ∃ n awaited, Scans matchStep [] s n awaited ∧ s.start ≤ p ∧
    (p ≤ s.start + n ∨ p ≤ s.stop ∧ ∃ c cs, (s.forward n).ahead = c :: cs ∧
      Item.at (s.forward n).previous c cs = .torn)
  outcome := .ok ()

/-- Passes a string literal, or all of the text if the literal is never closed. -/
def passesString (s : Cursor) : Run Unit := passes s ((stringLength? s.ahead).getD s.ahead.length)

def bracketed (cause : Cause) (s : Cursor) : Run (Cursor × Nat) := do
  matching s
  let (inside, n) ← still (Expression.bracketed cause s)
  passes s n
  return (inside, n)

def listForm (s : Cursor) : Run (Form × Nat) := do
  let (items, n) ← bracketed .unclosedList s
  return (.widgets items, n)

def rawForm (s : Cursor) : Run (Form × Nat) := do
  passes s (rawLength s.previous s.ahead)
  still (Expression.rawForm s)

def typedList? (s : Cursor) : Run (Option (Cursor × Nat)) :=
  match angleClosing? s.ahead with
  | none => return none
  | some n => do
    passes s (n + 1 + triviaLength (s.ahead.drop (n + 1)))
    return Expression.typedList? s

def compoundForm (start : Cursor) (lead : Nat) : Run (Form × Nat) := do
  passes start lead
  let s := start.forward lead
  let path := pathLength s.ahead
  let gap := triviaLength (s.ahead.drop path)
  passes s (path + gap)
  let opening := s.forward (path + gap)
  if 0 < path ∧ opening.next? = some '(' then do
    let name := s.text path
    let (arguments, n) ← bracketed (.unclosedCall name) opening
    let length := path + gap + n
    return (if Widget.isWidgetName name then .widget ⟨name, arguments⟩
      else .construction (s.text length), lead + length)
  else if (s.ahead.take path).contains '.' then
    return (.reference (s.text path), lead + path)
  else if s.next? = some '[' then do
    let (form, n) ← listForm s
    return (form, lead + n)
  else if s.next? = some '<' then do
    match ← typedList? s with
    | some (list, gap) => do
      let (form, n) ← listForm list
      return (form, lead + gap + n)
    | none => rawForm start
  else do
    let (form, n) ← rawForm s
    return (form, lead + n)

/-- The sign of a number is passed before the digits are looked for. -/
def readForm (s : Cursor) : Run (Form × Nat) :=
  if startsString s.previous s.ahead then do
    passesString s
    match stringLength? s.ahead with
    | some n => return (.string (stringText n s.ahead), n)
    | none => still (.error ⟨s.position, .unclosedString⟩)
  else do
    passes s (max (numberLength s.ahead) (if s.next? = some '-' then 1 else 0))
    if 0 < numberLength s.ahead then
      return (.number (s.text (numberLength s.ahead)), numberLength s.ahead)
    else if startsWithWord "true" s.ahead then do
      passes s 4
      return (.boolean true, 4)
    else if startsWithWord "false" s.ahead then do
      passes s 5
      return (.boolean false, 5)
    else compoundForm s (keywordLength s.ahead)

/-- The gap behind a name is passed before a colon is looked for. -/
def readKey? (s : Cursor) : Run (Option (String × Nat)) := do
  passes s (nameLength s.ahead + triviaLength (s.ahead.drop (nameLength s.ahead)))
  match Expression.readKey? s with
  | some (key, n) => do
    passes s n
    return some (key, n)
  | none => return none

def readItem (s : Cursor) : Run (Option Call × Nat) := do
  let lead := keywordLength s.ahead
  passes s lead
  let head := s.forward lead
  let path := pathLength head.ahead
  let gap := triviaLength (head.ahead.drop path)
  passes head (path + gap)
  let opening := head.forward (path + gap)
  let name := head.text path
  if opening.next? = some '(' ∧ Widget.isWidgetName name then do
    let (arguments, n) ← bracketed (.unclosedCall name) opening
    return (some ⟨name, arguments⟩, lead + path + gap + n)
  else do
    passes s (rawLength s.previous s.ahead)
    return (none, rawLength s.previous s.ahead)

def readAll (item : Cursor → Run (α × Nat)) (found : List α) (s : Cursor) : Run (List α) := do
  passes s (separatorsLength s.ahead)
  let s := s.forward (separatorsLength s.ahead)
  match _h : s.ahead with
  | [] => return found.reverse
  | _ :: _ => do
    let (a, n) ← item s
    passes s (max 1 n)
    readAll item (a :: found) (s.forward (max 1 n))
termination_by s.ahead.length
decreasing_by
  have h := congrArg List.length _h
  simp [s] at h ⊢
  omega

theorem readAll_end {item : Cursor → Run (α × Nat)} {found : List α} {s : Cursor} (h : (separated s).ahead = []) :
    readAll item found s = passes s (separatorsLength s.ahead) >>= fun _ => pure found.reverse := by
  rw [readAll]
  refine congrArg _ (funext fun _ => ?_)
  dsimp only
  split
  · rfl
  next hne => exact absurd (hne.symm.trans h) (List.cons_ne_nil _ _)

theorem readAll_step {item : Cursor → Run (α × Nat)} {found : List α} {s : Cursor}
    (h : (separated s).ahead ≠ []) :
    readAll item found s = passes s (separatorsLength s.ahead) >>= fun _ =>
      item (separated s) >>= fun (a, n) => passes (separated s) (max 1 n) >>= fun _ =>
        readAll item (a :: found) ((separated s).forward (max 1 n)) := by
  rw [readAll]
  refine congrArg _ (funext fun _ => ?_)
  dsimp only
  split
  next he => exact absurd he h
  next => rfl

section

variable (descend : Call → Run Widget)

def readMember (s : Cursor) : Run (Option Widget × Nat) := do
  let (call?, n) ← readItem s
  match call? with
  | none => return (none, n)
  | some call => return (some (← descend call), n)

def readWidgets (items : Cursor) : Run (List Widget) := do
  let found ← readAll (readMember descend) [] items
  return found.filterMap id

def readArgument : Form → Run (Argument Widget)
  | .string text => return .string text
  | .number text => return .number text
  | .boolean value => return .boolean value
  | .reference path => return .reference path
  | .construction text => return .construction text
  | .widget call => return .widget (← descend call)
  | .widgets items => return .widgets (← readWidgets descend items)
  | .raw text => return .raw text

/-- A list with its brackets. -/
def readList (s : Cursor) : Run (Argument Widget) := do
  let (form, _) ← listForm s
  readArgument descend form

def readEntry (s : Cursor) : Run (Entry × Nat) := do
  let (key?, lead) := match ← readKey? s with
    | some (key, n) => (some key, n)
    | none => (none, 0)
  let (form, n) ← readForm (s.forward lead)
  return (⟨key?, ← readArgument descend form⟩, lead + n)

def readEntries (s : Cursor) : Run (List Entry) := readAll (readEntry descend) [] s

def readLeadingText? (call : Call) : Run (Option (String × Cursor)) := do
  let s := call.arguments
  passes s (triviaLength s.ahead)
  let s := s.forward (triviaLength s.ahead)
  if Widget.isTextName call.name && startsString s.previous s.ahead then do
    passesString s
    match stringLength? s.ahead with
    | some n => do
      let rest := s.forward n
      passes rest (triviaLength rest.ahead)
      return some (stringText n s.ahead, rest.forward (triviaLength rest.ahead))
    | none => still (.error ⟨s.position, .unclosedString⟩)
  else return none

def readBody (call : Call) : Run Widget := do
  match ← readLeadingText? call with
  | some (text, rest) =>
    let entries ←
      if rest.next? = some ',' then do
        passes rest 1
        readEntries descend (rest.forward 1)
      else pure []
    return ⟨call.name, Entry.named entries, some text, .none⟩
  | none =>
    let entries ← readEntries descend call.arguments
    let (arguments, content) := Content.split (Entry.named entries)
    return ⟨call.name, arguments, none, content⟩

end

def readWidget (allowed : Nat) : Nat → Call → Run Widget
  | 0, call => still (.error ⟨call.arguments.position, .tooDeep allowed⟩)
  | left + 1, call => readBody (readWidget allowed left) call

end Run

/-- Every place between the start and the bound of the second cursor is between those of the first. -/
def Covers (s t : Cursor) : Prop := s.start ≤ t.start ∧ t.stop ≤ s.stop

theorem Covers.trans {s t u : Cursor} (h : Covers s t) (h' : Covers t u) : Covers s u :=
  ⟨h.1.trans h'.1, h'.2.trans h.2⟩

theorem covers_forward (s : Cursor) (n : Nat) : Covers s (s.forward n) := by
  simp only [Covers, Cursor.start, Cursor.stop, Cursor.forward_behind, Cursor.forward_ahead, List.length_append,
    List.length_reverse, List.length_take, List.length_drop]
  omega

theorem covers_within (s : Cursor) (n : Nat) : Covers s (s.within n) := by
  simp only [Covers, Cursor.start, Cursor.stop, Cursor.within_behind, Cursor.within_ahead, List.length_take]
  omega

/-- The run comes to the given outcome, and keeps between the start and the bound of the cursor. -/
structure Traces {α : Type} (s : Cursor) (x : Run α) (y : Except Fault α) : Prop where
  outcome : x.outcome = y
  within : ∀ p, x.visits p → s.start ≤ p ∧ p ≤ s.stop

namespace Traces

variable {α β : Type} {s t : Cursor} {x : Run α} {y : Except Fault α}

theorem of_covers (h : Traces t x y) (hs : Covers s t) : Traces s x y where
  outcome := h.outcome
  within p hp := ⟨hs.1.trans (h.within p hp).1, (h.within p hp).2.trans hs.2⟩

theorem pure (s : Cursor) (a : α) : Traces s (Pure.pure a) (.ok a) where
  outcome := rfl
  within _ hp := hp.elim

theorem still (s : Cursor) (y : Except Fault α) : Traces s (Run.still y) y where
  outcome := rfl
  within _ hp := hp.elim

theorem passes {n : Nat} (hn : n ≤ s.ahead.length) : Traces s (Run.passes s n) (.ok ()) where
  outcome := rfl
  within _ hp := ⟨hp.1, hp.2.trans (Nat.add_le_add_left hn _)⟩

theorem bind {f : α → Run β} {g : α → Except Fault β} (h : Traces s x y)
    (hf : ∀ a, y = .ok a → Traces s (f a) (g a)) : Traces s (x >>= f) (y >>= g) := by
  obtain ⟨visits, outcome⟩ := x
  obtain rfl : outcome = y := h.outcome
  cases outcome with
  | error fault => exact ⟨rfl, h.within⟩
  | ok a => exact ⟨(hf a rfl).outcome, fun p hp => hp.elim (h.within p) ((hf a rfl).within p)⟩

/-- Moving a cursor leaves open what comes next. -/
theorem behind {x : Run Unit} {z : Run β} {y : Except Fault β} (hx : Traces s x (.ok ())) (h : Traces s z y) :
    Traces s (x >>= fun _ => z) y :=
  hx.bind fun _ _ => h

theorem ite {c : Prop} [Decidable c] {x' : Run α} {y' : Except Fault α} (h : c → Traces s x y)
    (h' : ¬ c → Traces s x' y') : Traces s (if c then x else x') (if c then y else y') := by
  by_cases hc : c
  · rw [if_pos hc, if_pos hc]
    exact h hc
  · rw [if_neg hc, if_neg hc]
    exact h' hc

end Traces

end WidgetJsx
