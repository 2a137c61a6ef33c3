import WidgetJsx.CommandLine.Report

/-! The program: it reads the input that its arguments name, prints the report, and ends with its
exit code. -/

namespace WidgetJsx.CommandLine

def usage : String :=
  "Usage: flutter-rn [--json] [--include-imports] [--indent-size N] [--list-widgets] " ++
    "[--log FILTER] [INPUT]\n"

def decode (bytes : ByteArray) : Except ReadFault String :=
  match String.fromUTF8? bytes with
  | some text => .ok text
  | none => .error .notText

def Source.load : Source → IO (Except ReadFault String)
  | file path => do
    try
      return decode (← IO.FS.readBinFile path)
    catch
      | .noFileOrDirectory .. => return .error .notFound
      | error => return .error (.other (toString error))
  | standardInput => do
    return decode (← (← IO.getStdin).readBinToEnd)

def Record.text (record : Record) : String :=
  "[" ++ record.level.name ++ " " ++ record.target ++ "] " ++ record.message

def start (arguments : List String) : IO UInt32 := do
  let command := Command.ofArguments arguments
  let contents ← match command with
    | .run i =>
      match i.source? with
      | some source => source.load
      | none => pure (.error .notFound)
    | _ => pure (.error .notFound)
  let report := command.report (← IO.getEnv "RUST_LOG") fun _ => contents
  for record in report.logs do
    IO.eprintln record.text
  IO.print report.output
  if command = .showHelp then IO.print usage
  if command = .refuse then IO.eprint usage
  if let some failure := report.failure? then
    IO.eprintln ("Error: " ++ failure.message)
  return report.exitCode.toUInt32

end WidgetJsx.CommandLine

def main (arguments : List String) : IO UInt32 :=
  WidgetJsx.CommandLine.start arguments
