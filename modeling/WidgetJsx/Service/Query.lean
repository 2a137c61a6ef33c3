import WidgetJsx.Service.Options
import WidgetJsx.Text.Blank

/-! Requests for a conversion: a source text and options. -/

namespace WidgetJsx.Service

structure Query where
  code : String
  options : Options
deriving DecidableEq, Repr

namespace Query

inductive Fault where
  | missing
  | notText
  | blank
  | options (fault : Options.Fault)

def Fault.message : Fault → String
  | missing => "Missing required parameter: flutter_code"
  | notText => "Parameter flutter_code must be a string"
  | blank => "flutter_code cannot be empty"
  | options fault => "Invalid options: " ++ fault.message

def isAbsent : Json → Bool
  | .null => true
  | .boolean value => !value
  | .number n => n.toBinary64.isZero
  | .string text => text.isEmpty
  | .array _ | .object _ => false

def readCode (params : Json) : Except Fault String :=
  match params.get? "flutter_code" with
  | none => .error .missing
  | some v =>
    if isAbsent v then .error .missing
    else
      match v with
      | .string text =>
        if (Text.trimmed text).isEmpty then .error .blank else .ok (Text.trimmed text)
      | _ => .error .notText

def read (params : Json) : Except Fault Query := do
  let code ← readCode params
  match Options.read ((params.get? "options").getD .null) with
  | .ok options => return ⟨code, options⟩
  | .error fault => throw (.options fault)

end Query

end WidgetJsx.Service
