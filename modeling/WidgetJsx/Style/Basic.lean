import WidgetJsx.Fields
import WidgetJsx.Binary64.Layout

/-! Styles: flat tables of attributes, each a number or a text. -/

namespace WidgetJsx

inductive Style.Value where
  | number (x : Binary64)
  | text (s : String)
deriving DecidableEq, Repr

abbrev Style := Fields Style.Value

namespace Style

/-- Numbers are written in full, in as few digits as tell them apart. -/
def numberText (x : Binary64) : String := x.write .plain

/-- A text between single quotes, where quotes and backslashes are escaped. -/
def quoted (s : String) : String :=
  "'" ++ String.ofList (s.toList.flatMap fun c =>
    if c = '\\' ∨ c = '\'' then ['\\', c] else [c]) ++ "'"

def Value.write : Value → String
  | number x => numberText x
  | text s => quoted s

/-- Equality of values, where numbers are compared as numbers. -/
def Value.same : Value → Value → Bool
  | number x, number y => x.same y
  | text s, text t => s == t
  | _, _ => false

def same (a b : Style) : Bool :=
  a.keys == b.keys && (a.entries.zip b.entries).all fun (x, y) => x.2.same y.2

def number? (style : Style) (key : String) : Option Binary64 :=
  match style.get? key with
  | some (.number x) => some x
  | _ => none

def ofNumbers (entries : List (String × Option Binary64)) : Style :=
  .ofList <| entries.filterMap fun (key, x?) => x?.map fun x => (key, .number x)

def ofTexts (entries : List (String × String)) : Style :=
  .ofList <| entries.map fun (key, s) => (key, .text s)

end Style

end WidgetJsx
