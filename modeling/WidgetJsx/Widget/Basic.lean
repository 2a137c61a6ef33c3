import WidgetJsx.Fields

/-! Widget trees. Literals keep the text they are written in; only strings are read to what they
stand for. -/

namespace WidgetJsx

/-- What an argument holds, over a type of widgets. -/
inductive Argument (W : Type) where
  | string (text : String)
  | number (text : String)
  | boolean (value : Bool)
  /-- A dotted path such as `Colors.grey.shade300`. -/
  | reference (path : String)
  /-- The text of a constructor call that builds a value. -/
  | construction (text : String)
  | widget (w : W)
  | widgets (ws : List W)
  /-- Any other expression, trimmed. -/
  | raw (text : String)
deriving Repr

/-- What stands inside a widget: nothing, one widget, or a list of them. -/
inductive Content (W : Type) where
  | none
  | child (w : W)
  | children (ws : List W)
deriving Repr

structure Widget where
  name : String
  /-- The named arguments, less the one that became the content. -/
  arguments : Fields (Argument Widget)
  /-- The leading string of a widget that shows text. -/
  text? : Option String
  content : Content Widget

/-- A constructor call with all its arguments, unnamed ones first. -/
structure Construction where
  name : String
  positional : List (Argument Widget)
  named : Fields (Argument Widget)

namespace Argument

variable {W : Type}

/-- The text of an argument other than a widget or a list of widgets. -/
def text? : Argument W → Option String
  | string text | number text | reference text | construction text | raw text => some text
  | boolean value => some (if value then "true" else "false")
  | widget _ | widgets _ => none

def widget? : Argument W → Option W
  | widget w => some w
  | _ => none

end Argument

namespace Content

variable {W : Type}

def child? : Content W → Option W
  | child w => some w
  | _ => Option.none

def children? : Content W → Option (List W)
  | children ws => some ws
  | _ => Option.none

def toList : Content W → List W
  | none => []
  | child w => [w]
  | children ws => ws

end Content

namespace Widget

def argument? (w : Widget) (key : String) : Option (Argument Widget) :=
  w.arguments.get? key

def argumentText? (w : Widget) (key : String) : Option String :=
  w.argument? key >>= Argument.text?

end Widget

namespace Construction

def argument? (c : Construction) (key : String) : Option (Argument Widget) :=
  c.named.get? key

def argumentText? (c : Construction) (key : String) : Option String :=
  c.argument? key >>= Argument.text?

def positionalText? (c : Construction) (index : Nat) : Option String :=
  c.positional[index]? >>= Argument.text?

end Construction

end WidgetJsx
