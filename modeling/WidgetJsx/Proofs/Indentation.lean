import Mathlib.Data.String.Basic
import WidgetJsx.Element.Indentation
import WidgetJsx.Proofs.WellFormed

/-! Lines written with one unit of indentation, and then indented anew with another, are the lines
written with the other. The text is gone through line by line; a line has no line break in it and no
white space at its ends, so that its level is the number of blanks in front of it. -/

namespace WidgetJsx

namespace Text

variable {l cs : List Char}

theorem linesFrom_eq (found : List (List Char)) (before cs : List Char) :
    linesFrom found before cs = found.reverse ++ linesFrom [] before cs := by
  induction cs generalizing found before with
  | nil => simp [linesFrom]
  | cons c cs ih =>
    unfold linesFrom
    by_cases hc : c = '\n'
    · rw [if_pos hc, if_pos hc, ih (before.reverse :: found), ih [before.reverse]]
      simp
    · rw [if_neg hc, if_neg hc, ih found]

theorem linesFrom_line (h : '\n' ∉ l) (before cs : List Char) :
    linesFrom [] before (l ++ '\n' :: cs) = (before.reverse ++ l) :: lines cs := by
  induction l generalizing before with
  | nil =>
    rw [List.nil_append, linesFrom, if_pos rfl, linesFrom_eq, List.append_nil]
    rfl
  | cons c l ih =>
    have hc : c ≠ '\n' := fun he => h (he ▸ List.mem_cons_self)
    rw [List.cons_append, linesFrom, if_neg hc, ih fun hm => h (List.mem_cons_of_mem c hm)]
    simp

theorem lines_line (h : '\n' ∉ l) (cs : List Char) : lines (l ++ '\n' :: cs) = l :: lines cs := by
  rw [lines, linesFrom_line h]
  rfl

theorem lines_ne_nil (cs : List Char) : lines cs ≠ [] := by
  have hgo (before : List Char) : linesFrom [] before cs ≠ [] := by
    induction cs generalizing before with
    | nil => exact List.cons_ne_nil _ _
    | cons c cs ih =>
      unfold linesFrom
      by_cases hc : c = '\n'
      · rw [if_pos hc, linesFrom_eq]
        exact List.cons_ne_nil _ _
      · rw [if_neg hc]
        exact ih _
  exact hgo []

theorem unlines_cons {ls : List (List Char)} (h : ls ≠ []) (l : List Char) :
    unlines (l :: ls) = l ++ '\n' :: unlines ls := by
  obtain ⟨next, ls, rfl⟩ := List.exists_cons_of_ne_nil h
  simp [unlines, List.intercalate]

theorem dropWhile_isBlank_eq_self (h : ∀ c ∈ l.head?, isBlank c = false) :
    l.dropWhile isBlank = l := by
  cases l with
  | nil => rfl
  | cons c l => rw [List.dropWhile_cons, h c rfl, if_neg Bool.false_ne_true]

theorem trim_blanks (n : Nat) (h : Trimmed l) : trim (List.replicate n ' ' ++ l) = l := by
  have hstart : trimStart (List.replicate n ' ' ++ l) = l := by
    rw [trimStart, List.dropWhile_append_of_pos fun c hc => by rw [List.eq_of_mem_replicate hc]; rfl]
    exact dropWhile_isBlank_eq_self h.1
  have hend : l.reverse.dropWhile isBlank = l.reverse := by
    apply dropWhile_isBlank_eq_self
    rw [List.head?_reverse]
    exact h.2
  rw [trim, hstart, trimEnd, hend, List.reverse_reverse]

theorem trim_eq_self (h : Trimmed l) : trim l = l := trim_blanks 0 h

theorem trimmed_eq_self {s : String} (h : Trimmed s.toList) : trimmed s = s := by
  rw [trimmed, trim_eq_self h, String.ofList_toList]

theorem isBlank_eq_false_of_isAlphanum {c : Char} (h : c.isAlphanum = true) : isBlank c = false := by
  simp only [Char.isAlphanum, Char.isAlpha, Char.isUpper, Char.isLower, Char.isDigit, Bool.or_eq_true,
    Bool.and_eq_true, decide_eq_true_eq, ge_iff_le, UInt32.le_iff_toNat_le] at h
  change ((65 ≤ c.toNat ∧ c.toNat ≤ 90) ∨ (97 ≤ c.toNat ∧ c.toNat ≤ 122)) ∨
    (48 ≤ c.toNat ∧ c.toNat ≤ 57) at h
  simp only [isBlank, Bool.or_eq_false_iff, Bool.and_eq_false_iff, beq_eq_false_iff_ne,
    decide_eq_false_iff_not]
  omega

/-- The size in bytes of the white space in a text. -/
def blankBytes (cs : List Char) : Nat := String.utf8Len (cs.filter isBlank)

theorem blankBytes_append (u v : List Char) : blankBytes (u ++ v) = blankBytes u + blankBytes v := by
  rw [blankBytes, List.filter_append, String.utf8Len_append]
  rfl

theorem blankBytes_spaces (k : Nat) : blankBytes (List.replicate k ' ') = k := by
  induction k with
  | zero => rfl
  | succ k ih =>
    have hone : blankBytes [' '] = 1 := by decide
    rw [List.replicate_succ, ← List.singleton_append, blankBytes_append, ih, hone, Nat.add_comm]

end Text

open Text in
theorem trimmed_of_ends {first last : Char} {cs : List Char} (hf : cs.head? = some first)
    (hfirst : isBlank first = false) (hl : cs.getLast? = some last) (hlast : isBlank last = false) :
    Trimmed cs := by
  refine ⟨fun c hc => ?_, fun c hc => ?_⟩
  · rw [hf] at hc
    rwa [← Option.some.inj hc]
  · rw [hl] at hc
    rwa [← Option.some.inj hc]

namespace Element

open Text

theorem leadingBytes_eq (line : List Char) :
    leadingBytes line = blankBytes (line.takeWhile isBlank) := by
  have hfold (cs : List Char) (start : Nat) :
      cs.foldl (fun n c => n + c.utf8Size) start = start + String.utf8Len cs := by
    induction cs generalizing start with
    | nil => rfl
    | cons c cs ih =>
      rw [List.foldl_cons, ih, String.utf8Len_cons]
      omega
  have hall : (line.takeWhile isBlank).filter isBlank = line.takeWhile isBlank :=
    List.filter_eq_self.mpr fun c hc => List.mem_takeWhile_imp hc
  rw [leadingBytes, hfold, blankBytes, hall, Nat.zero_add]

theorem leadingBytes_blanks (n : Nat) {l : List Char} (h : ∀ c ∈ l.head?, isBlank c = false) :
    leadingBytes (List.replicate n ' ' ++ l) = n := by
  have hblanks : (List.replicate n ' ' ++ l).takeWhile isBlank = List.replicate n ' ' :=
    Expression.takeWhile_append_eq (fun c hc => by rw [List.eq_of_mem_replicate hc]; rfl) h
  rw [leadingBytes_eq, hblanks, blankBytes_spaces]

namespace Line

/-- A line that is one line of text, with no white space at its ends. -/
structure Tight (line : Line) : Prop where
  newline : '\n' ∉ line.text.toList
  trimmed : Trimmed line.text.toList

variable {line : Line} (unit : Nat)

/-- A line as it is written, less its line break. -/
def indented (line : Line) : List Char :=
  List.replicate (line.level * unit) ' ' ++ line.text.toList

theorem toList_write (line : Line) : (line.write unit).toList = line.indented unit ++ ['\n'] := by
  simp [write, indented]

theorem Tight.reindentLine_eq (h : line.Tight) :
    reindentLine unit (line.indented standardUnit) = line.indented unit := by
  have hlevel : line.level * standardUnit / standardUnit = line.level :=
    Nat.mul_div_cancel _ (by decide)
  unfold reindentLine indentation indented
  rw [leadingBytes_blanks _ h.trimmed.1, hlevel, trim_blanks _ h.trimmed]
  by_cases hz : line.level * standardUnit = 0
  · have hlevel : line.level = 0 := by
      have : line.level * 2 = 0 := hz
      omega
    rw [if_pos hz, hlevel, Nat.zero_mul, Nat.zero_mul]
  · rw [if_neg hz]

theorem Tight.newline_indented (h : line.Tight) : '\n' ∉ line.indented unit := by
  intro hm
  rcases List.mem_append.mp hm with hm | hm
  · exact absurd (List.eq_of_mem_replicate hm) (by decide)
  · exact h.newline hm

end Line

/-- Each line gets the spaces that it would have been written with. -/
theorem reindentLines_written {ls : List Line} (h : ∀ line ∈ ls, line.Tight) (unit : Nat) :
    unlines ((Text.lines (String.join (ls.map (Line.write standardUnit))).toList).map (reindentLine unit)) =
      (String.join (ls.map (Line.write unit))).toList := by
  rw [String.toList_join, String.toList_join, List.flatMap_map, List.flatMap_map]
  induction ls with
  | nil => rfl
  | cons line ls ih =>
    -- the first line break is the one that ends this line
    have hline := h line List.mem_cons_self
    have hrest := ih fun line hm => h line (List.mem_cons_of_mem _ hm)
    rw [List.flatMap_cons, List.flatMap_cons, Line.toList_write, Line.toList_write,
      List.append_assoc, List.append_assoc, List.singleton_append, List.singleton_append,
      lines_line (hline.newline_indented standardUnit), List.map_cons, hline.reindentLine_eq,
      unlines_cons (mt List.map_eq_nil_iff.mp (lines_ne_nil _)), hrest]

/-- Other indentation comes out the same whether lines are written with it at once or get it later. -/
theorem reindent_written {ls : List Line} (h : ∀ line ∈ ls, line.Tight) (unit : Nat) :
    reindent unit (String.join (ls.map (Line.write standardUnit))) =
      String.join (ls.map (Line.write unit)) := by
  by_cases hu : unit = standardUnit
  · rw [reindent, if_pos hu, hu]
  · rw [reindent, if_neg hu, reindentLines_written h, String.ofList_toList]

end Element

end WidgetJsx
