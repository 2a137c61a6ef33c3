import WidgetJsx.Text.Blank

/-! Log records, and filters that say which of them are shown. -/

namespace WidgetJsx.CommandLine

inductive Level where
  | error
  | warn
  | info
  | debug
  | trace
deriving DecidableEq, Repr

def Level.rank : Level → Nat
  | error => 1
  | warn => 2
  | info => 3
  | debug => 4
  | trace => 5

def Level.name : Level → String
  | error => "ERROR"
  | warn => "WARN"
  | info => "INFO"
  | debug => "DEBUG"
  | trace => "TRACE"

structure Record where
  level : Level
  target : String
  message : String
deriving DecidableEq, Repr

/-- Shows records up to some rank from targets whose names start with a given text. -/
structure Directive where
  target : List Char
  rank : Nat
deriving DecidableEq, Repr

abbrev Filter := List Directive

namespace Filter

def ranks : List (String × Nat) :=
  ("OFF", 0) :: [Level.error, .warn, .info, .debug, .trace].map fun l => (l.name, l.rank)

/-- The rank of a level by its name, in capitals or not. -/
def rank? (name : List Char) : Option Nat :=
  ranks.lookup (String.ofList (name.map Char.toUpper))

def partsFrom (separator : Char) (before : List Char) : List Char → List (List Char)
  | [] => [before.reverse]
  | c :: cs =>
    if c = separator then before.reverse :: partsFrom separator [] cs
    else partsFrom separator (c :: before) cs

/-- Reads a level, a target, or a target with a level. Text of any other form is none. -/
def directive? (text : List Char) : Option Directive :=
  match partsFrom '=' [] text with
  | [name] =>
    match rank? name with
    | some rank => some ⟨[], rank⟩
    | none => some ⟨name, Level.trace.rank⟩
  | [target, level] =>
    match Text.trim level with
    | [] => some ⟨target, Level.trace.rank⟩
    | level => (rank? level).map (⟨target, ·⟩)
  | _ => none

/-- The directive of a target that was read before gives way to a new one. -/
def insert (filter : Filter) (directive : Directive) : Filter :=
  filter.filter (·.target ≠ directive.target) ++ [directive]

/-- Reads directives with commas between them. Without any, errors alone are shown. -/
def ofString (text : String) : Filter :=
  let parts := ((partsFrom ',' [] text.toList).map Text.trim).filter (· ≠ [])
  match (parts.filterMap directive?).foldl insert [] with
  | [] => [⟨[], Level.error.rank⟩]
  | filter => filter

def standard : Filter := [⟨[], Level.warn.rank⟩]

/-- Of the directives for a target, the one that names most of it counts. -/
def shows (filter : Filter) (record : Record) : Bool :=
  let matching := filter.filter fun d => d.target.isPrefixOf record.target.toList
  let closest := matching.foldl (fun found d =>
    match found with
    | none => some d
    | some best => if best.target.length ≤ d.target.length then some d else some best)
    (none : Option Directive)
  closest.any fun d => record.level.rank ≤ d.rank

end Filter

end WidgetJsx.CommandLine
