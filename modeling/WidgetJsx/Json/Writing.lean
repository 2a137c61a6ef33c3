import WidgetJsx.Json.Text
import WidgetJsx.Binary64.Layout

/-! Writing JSON without white space. -/

namespace WidgetJsx.Json

def Number.write : Number → String
  | integer n => toString n
  | float x => x.write .exponential

def separated (items : List (List Char)) : List Char :=
  [','].intercalate items

def writeList : Json → List Char
  | null => "null".toList
  | boolean value => (if value then "true" else "false").toList
  | number n => n.write.toList
  | string text => writeString text
  | array items => '[' :: separated (items.map writeList) ++ [']']
  | object ⟨entries⟩ =>
    '\x7b' :: separated (entries.map fun entry =>
      writeString entry.1 ++ ':' :: writeList entry.2) ++ ['\x7d']
termination_by v => sizeOf v
decreasing_by
  · have := List.sizeOf_lt_of_mem ‹_ ∈ items›
    simp only [array.sizeOf_spec]
    omega
  · have := List.sizeOf_lt_of_mem ‹_ ∈ entries›
    cases entry
    simp only [object.sizeOf_spec, Fields.mk.sizeOf_spec, Prod.mk.sizeOf_spec] at *
    omega

def write (v : Json) : String := String.ofList v.writeList

end WidgetJsx.Json
