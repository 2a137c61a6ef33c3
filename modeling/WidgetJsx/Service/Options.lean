import WidgetJsx.Element.Basic
import WidgetJsx.Json.Basic
import WidgetJsx.Text.Quoted

/-! What a request may ask for beside a conversion. -/

namespace WidgetJsx.Service

structure Options where
  includeImports : Bool
  unit : Nat
deriving DecidableEq, Repr

namespace Options

def standard : Options := ⟨false, Element.standardUnit⟩

inductive Expected where
  | options
  | boolean
  | number
deriving DecidableEq, Repr

def Expected.text : Expected → String
  | options => "struct SkillOptions"
  | boolean => "a boolean"
  | number => "f64"

inductive Fault where
  | wrongKind (found : Json) (expected : Expected)
  | notWhole (x : Binary64)
  | tooManyItems (count : Nat)

def foundText : Json → String
  | .null => "null"
  | .boolean value => "boolean `" ++ (if value then "true" else "false") ++ "`"
  | .number (.integer n) => "integer `" ++ toString n ++ "`"
  | .number (.float x) => "floating point `" ++ x.write .exponential ++ "`"
  | .string text => "string " ++ Text.shown text
  | .array _ => "sequence"
  | .object _ => "map"

def Fault.message : Fault → String
  | wrongKind found expected =>
    "invalid type: " ++ foundText found ++ ", expected " ++ expected.text
  | notWhole x => "expected a non-negative whole number, got " ++ x.write .plain
  | tooManyItems count =>
    "invalid length " ++ toString count ++ ", expected fewer elements in array"

def readBoolean (v : Json) : Except Fault Bool :=
  match v with
  | .boolean value => .ok value
  | v => .error (.wrongKind v .boolean)

def unitBound : Nat := 0xFFFFFFFF

def readUnit (v : Json) : Except Fault Nat :=
  match v with
  | .number n =>
    match n.toBinary64.toNat? with
    | some unit => if unit ≤ unitBound then .ok unit else .error (.notWhole n.toBinary64)
    | none => .error (.notWhole n.toBinary64)
  | v => .error (.wrongKind v .number)

/-- Reads values that may be missing, the imports first. -/
def readValues (imports? unit? : Option Json) : Except Fault Options := do
  let includeImports ← match imports? with
    | some v => readBoolean v
    | none => pure standard.includeImports
  let unit ← match unit? with
    | some v => readUnit v
    | none => pure standard.unit
  return ⟨includeImports, unit⟩

/-- Reads options from an object by their keys, or from a list by their places. -/
def read (v : Json) : Except Fault Options :=
  match v with
  | .null => .ok standard
  | .object fields => readValues (fields.get? "include_imports") (fields.get? "indent_size")
  | .array items => do
    let options ← readValues items[0]? items[1]?
    if 2 < items.length then throw (.tooManyItems items.length)
    return options
  | v => .error (.wrongKind v .options)

end Options

end WidgetJsx.Service
