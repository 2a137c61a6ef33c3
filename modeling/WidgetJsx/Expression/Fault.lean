import WidgetJsx.Text.Position

/-! Why a source text is not read, and where in it. -/

namespace WidgetJsx.Expression

inductive Cause
  | tooLong (bytes limit : Nat)
  | callExpected
  | openingExpected (name : String)
  | unclosedCall (name : String)
  | unclosedList
  | unclosedString
  | notWidget (name : String)
  | tooDeep (levels : Nat)
  | trailingText
deriving DecidableEq, Repr

def Cause.message : Cause → String
  | tooLong bytes limit =>
    "input is " ++ toString bytes ++ " bytes; the limit is " ++ toString limit
  | callExpected => "expected a constructor call such as `Container(...)`"
  | openingExpected name => "expected '(' after `" ++ name ++ "`"
  | unclosedCall name => "unclosed '(' in `" ++ name ++ "(...)`"
  | unclosedList => "unclosed '[' list"
  | unclosedString => "unterminated string literal"
  | notWidget name => "`" ++ name ++ "` is not a widget constructor"
  | tooDeep levels => "widgets nested deeper than " ++ toString levels ++ " levels"
  | trailingText => "unexpected input after the closing ')'"

structure Fault where
  position : Text.Position
  cause : Cause
deriving DecidableEq, Repr

def Fault.message (fault : Fault) : String :=
  "dart parse error at " ++ toString fault.position.line ++ ":" ++
    toString fault.position.column ++ ": " ++ fault.cause.message

end WidgetJsx.Expression
