import WidgetJsx.Text.Invisible

/-! Text shown between double quotes for a person to read: quotes and backslashes are escaped, and
what would not be seen is written by its code point. -/

namespace WidgetJsx.Text

/-- The digits of a number in base sixteen, small letters. -/
def hexDigits (n : Nat) : String := String.ofList (Nat.toDigits 16 n)

def shownChar (c : Char) : String :=
  match c with
  | '\x00' => "\\0"
  | '\t' => "\\t"
  | '\r' => "\\r"
  | '\n' => "\\n"
  | '"' => "\\\""
  | '\\' => "\\\\"
  | c => if isInvisible c then "\\u\x7b" ++ hexDigits c.toNat ++ "\x7d" else c.toString

def shown (s : String) : String :=
  "\"" ++ String.join (s.toList.map shownChar) ++ "\""

end WidgetJsx.Text
