/-! The arguments of the command line. They are read from left to right, and the first that is
wrong, or that asks for help or the version, decides. -/

namespace WidgetJsx.CommandLine

structure Invocation where
  /-- The file to read; none for the standard input. -/
  input? : Option String
  json : Bool
  includeImports : Bool
  listWidgets : Bool
  unit? : Option Nat
  logFilter? : Option String
deriving DecidableEq, Repr

def Invocation.empty : Invocation := ⟨none, false, false, false, none, none⟩

inductive Command where
  | run (invocation : Invocation)
  | showVersion
  | showHelp
  | refuse
deriving DecidableEq, Repr

def numberBound : Nat := 0xFFFFFFFFFFFFFFFF

/-- Reads a whole number, which may have a plus sign. -/
def readNumber? (s : String) : Option Nat :=
  let digits := match s.toList with
    | '+' :: cs => cs
    | cs => cs
  if digits.isEmpty || !digits.all Char.isDigit then none
  else
    let n := digits.foldl (fun n c => 10 * n + (c.toNat - '0'.toNat)) 0
    if n ≤ numberBound then some n else none

namespace Invocation

def setInput? (i : Invocation) (path : String) : Option Invocation :=
  if i.input?.isSome || path.isEmpty then none else some { i with input? := some path }

/-- Sets a flag; none if it is set already or if there is no such flag. -/
def setFlag? (i : Invocation) (name : String) : Option Invocation :=
  match name with
  | "json" => if i.json then none else some { i with json := true }
  | "include-imports" => if i.includeImports then none else some { i with includeImports := true }
  | "list-widgets" => if i.listWidgets then none else some { i with listWidgets := true }
  | _ => none

def setUnit? (i : Invocation) (value : String) : Option Invocation :=
  match i.unit?, readNumber? value with
  | none, some unit => some { i with unit? := some unit }
  | _, _ => none

def setLogFilter? (i : Invocation) (value : String) : Option Invocation :=
  match i.logFilter? with
  | none => some { i with logFilter? := some value }
  | some _ => none

/-- How an option with a value is set; none if there is no such option. -/
def option? (name : String) : Option (Invocation → String → Option Invocation) :=
  match name with
  | "indent-size" => some setUnit?
  | "log" => some setLogFilter?
  | _ => none

end Invocation

/-- What an argument is by its form: a name with or without a value, letters, the end of options,
or else a value. -/
inductive Form where
  | long (name : String) (value? : Option String)
  | short (letters : List Char)
  | endOfOptions
  | value (text : String)
deriving DecidableEq, Repr

def Form.ofString (s : String) : Form :=
  match s.toList with
  | ['-', '-'] => .endOfOptions
  | '-' :: '-' :: cs =>
    let name := String.ofList (cs.takeWhile (· ≠ '='))
    match cs.dropWhile (· ≠ '=') with
    | [] => .long name none
    | _ :: given => .long name (some (String.ofList given))
  | '-' :: c :: cs => .short (c :: cs)
  | _ => .value s

/-- Arguments behind the end of options are inputs, whatever their form. -/
def readInputs (i : Invocation) : List String → Command
  | [] => .run i
  | s :: rest =>
    match i.setInput? s with
    | some i => readInputs i rest
    | none => .refuse

def read (i : Invocation) : List String → Command
  | [] => .run i
  | s :: rest =>
    match Form.ofString s with
    | .endOfOptions => readInputs i rest
    | .value path =>
      match i.setInput? path with
      | some i => read i rest
      | none => .refuse
    | .short ('V' :: _) => .showVersion
    | .short ('h' :: _) => .showHelp
    | .short _ => .refuse
    | .long "version" none => .showVersion
    | .long "help" none => .showHelp
    | .long name value? =>
      match Invocation.option? name, value? with
      | some set, some value =>
        match set i value with
        | some i => read i rest
        | none => .refuse
      | some set, none =>
        match rest with
        | [] => .refuse
        | value :: rest =>
          match Form.ofString value with
          | .value value =>
            match set i value with
            | some i => read i rest
            | none => .refuse
          | _ => .refuse
      | none, some _ => .refuse
      | none, none =>
        match i.setFlag? name with
        | some i => read i rest
        | none => .refuse

def Command.ofArguments (arguments : List String) : Command :=
  read .empty arguments

end WidgetJsx.CommandLine
