import WidgetJsx.Fields
import WidgetJsx.Binary64.Basic

/-! JSON values. Whole numbers of up to 64 bits are told apart from all others, and an object keeps
the order in which its keys were first met. -/

namespace WidgetJsx

inductive Json.Number where
  | integer (n : Int)
  | float (x : Binary64)
deriving DecidableEq, Repr

inductive Json where
  | null
  | boolean (value : Bool)
  | number (n : Json.Number)
  | string (text : String)
  | array (items : List Json)
  | object (fields : Fields Json)
deriving Inhabited

namespace Json

def Number.toBinary64 : Number → Binary64
  | integer n => .ofInt n
  | float x => x

def get? (v : Json) (key : String) : Option Json :=
  match v with
  | object fields => fields.get? key
  | _ => none

end Json

end WidgetJsx
