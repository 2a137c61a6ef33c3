import WidgetJsx.CommandLine.Arguments
import WidgetJsx.CommandLine.Log
import WidgetJsx.Service.Reply

/-! What the program does with its arguments and its input: what it prints, what it logs, and how it
ends. -/

namespace WidgetJsx.CommandLine

open Service

inductive Source where
  | file (path : String)
  | standardInput
deriving DecidableEq, Repr

inductive ReadFault where
  | notFound
  | notText
  | other (message : String)
deriving DecidableEq, Repr

def ReadFault.message : ReadFault → String
  | notFound => "No such file or directory (os error 2)"
  | notText => "stream did not contain valid UTF-8"
  | other message => message

def Source.name : Source → String
  | file path => path
  | standardInput => "stdin"

inductive Failure where
  | unreadable (source : Source) (fault : ReadFault)
  | blank
  | unread (fault : Expression.Fault)
deriving DecidableEq, Repr

def Failure.message : Failure → String
  | unreadable source fault =>
    "reading " ++ source.name ++ "\n\nCaused by:\n    " ++ fault.message
  | blank => Query.Fault.blank.message
  | unread fault => fault.message

structure Report where
  exitCode : Nat
  output : String
  logs : List Record
  failure? : Option Failure
deriving DecidableEq, Repr

/-- The source that is read, if any is. A minus sign stands for the standard input. -/
def Invocation.source? (i : Invocation) : Option Source :=
  if i.listWidgets then none
  else
    match i.input? with
    | none => some .standardInput
    | some path => if path = "-" then some .standardInput else some (.file path)

def startRecord : Record := ⟨.debug, "flutter_rn_skill::logging::init", "logging initialized"⟩

def conversionRecords (c : Conversion) : List Record :=
  ⟨.debug, "flutter_rn_core", "parsed root widget `" ++ c.widget.name ++ "`"⟩ ::
    c.unknownNames.map (fun name =>
      ⟨.warn, "flutter_rn_core::builder",
        "no mapping for widget `" ++ name ++ "`; rendering it as a View"⟩) ++
    [⟨.debug, "flutter_rn_core", "built root component `" ++ c.element.component.name ++ "`"⟩,
      ⟨.debug, "flutter_rn_core",
        "generated " ++ toString c.output.utf8ByteSize ++ " bytes of JSX"⟩]

def replyRecords : Reply → List Record
  | .converted _ c => conversionRecords c
  | .unread fault => [⟨.debug, "flutter_rn_skill", "parse failed: " ++ fault.message⟩]
  | .rejected fault => [⟨.debug, "flutter_rn_skill", "rejected request: " ++ fault.message⟩]
  | .malformed _ => []

/-- The report on a request in JSON, which fails in its reply only. -/
def reportJson (text : String) : Report :=
  let reply := answerText text
  ⟨0, reply.json.write ++ "\n", replyRecords reply, none⟩

def Invocation.options (i : Invocation) : Options :=
  ⟨i.includeImports, i.unit?.getD Element.standardUnit⟩

/-- The report on a source text. Spaces in front of a line that no text can hold end the program. -/
def reportCode (i : Invocation) (text : String) : Report :=
  let code := Text.trimmed text
  if code.isEmpty then ⟨1, "", [], some .blank⟩
  else
    match Conversion.read .standard code with
    | .ok c =>
      if Element.canReindent i.options.unit (document i.options c) then
        ⟨0, present i.options c, conversionRecords c, none⟩
      else ⟨101, "", conversionRecords c, none⟩
    | .error fault => ⟨1, "", replyRecords (.unread fault), some (.unread fault)⟩

/-- The report on all that is read, with all that is logged. -/
def Invocation.fullReport (i : Invocation) (contents : Source → Except ReadFault String) :
    Report :=
  match i.source? with
  | none => ⟨0, Catalog.reference, [], none⟩
  | some source =>
    match contents source with
    | .error fault => ⟨1, "", [], some (.unreadable source fault)⟩
    | .ok text => if i.json then reportJson text else reportCode i text

/-- The filter of the arguments, else that of the environment, else the standard one. -/
def Invocation.filter (i : Invocation) (environment? : Option String) : Filter :=
  match i.logFilter?, environment? with
  | some text, _ => .ofString text
  | none, some text => .ofString text
  | none, none => .standard

def Invocation.report (i : Invocation) (environment? : Option String)
    (contents : Source → Except ReadFault String) : Report :=
  let report := i.fullReport contents
  { report with
    logs := (startRecord :: report.logs).filter (i.filter environment?).shows }

def version : String := "flutter-rn 0.1.0\n"

def Command.report (command : Command) (environment? : Option String)
    (contents : Source → Except ReadFault String) : Report :=
  match command with
  | .run i => i.report environment? contents
  | .showVersion => ⟨0, version, [], none⟩
  | .showHelp => ⟨0, "", [], none⟩
  | .refuse => ⟨2, "", [], none⟩

end WidgetJsx.CommandLine
