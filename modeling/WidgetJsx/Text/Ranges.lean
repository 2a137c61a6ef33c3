/-! Membership in a table of closed ranges of code points. A table is sorted and its ranges do not
meet, so a search may halve it. -/

namespace WidgetJsx.Text.Ranges

/-- Looks for `n` among the ranges `low`, …, `high - 1` of the table. -/
def search (table : Array (Nat × Nat)) (n low high : Nat) : Bool :=
  if _h : low < high then
    match table[(low + high) / 2]? with
    | none => false
    | some (first, last) =>
      if n < first then search table n low ((low + high) / 2)
      else if last < n then search table n ((low + high) / 2 + 1) high
      else true
  else false
termination_by high - low

def contains (table : Array (Nat × Nat)) (n : Nat) : Bool :=
  search table n 0 table.size

end WidgetJsx.Text.Ranges
