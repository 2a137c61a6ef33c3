import WidgetJsx.CommandLine.Report
import WidgetJsx.Proofs.Arguments
import WidgetJsx.Proofs.BlankRun
import WidgetJsx.Proofs.Validation

/-! The command line and the service agree. What the program prints and how it ends say the same about a
source text as the reply to a request for it with the same options, although each puts its query together
on its own; and of a request in JSON it prints the reply. -/

namespace WidgetJsx

namespace Service

/-- A request for the conversion of a source text. -/
def request (code : String) (imports : Bool) (unit : Nat) : Json :=
  .object ⟨[("flutter_code", .string code),
    ("options", .object ⟨[("include_imports", .boolean imports),
      ("indent_size", .number (.integer unit))]⟩)]⟩

theorem Options.read_request {code : String} {unit : Nat} (imports : Bool) (h : unit ≤ unitBound) :
    Options.read (((request code imports unit).get? "options").getD .null) = .ok ⟨imports, unit⟩ := by
  have hperiod : unitBound < 2 * Binary64.period := by decide +kernel
  have hwhole : (Json.Number.integer unit).toBinary64.toNat? = some unit :=
    Binary64.toNat?_ofInt (Nat.lt_of_le_of_lt h hperiod)
  have hunit := readUnit_eq_ok_iff.mp (readUnit_number_eq_ok_iff.mpr ⟨hwhole, h⟩)
  exact readValues_eq_ok_iff.mpr ⟨.set rfl, .set hunit⟩

end Service

namespace CommandLine

open Service

/-- The program ends well and prints what a reply holds, or it fails with the error of the reply and prints
nothing. -/
structure Report.Tells (report : Report) (reply : Reply) : Prop where
  succeeded : reply.succeeded = true →
    report.exitCode = 0 ∧ reply.output? = some report.output ∧ report.failure? = none
  failed : reply.succeeded = false → report.exitCode = 1 ∧ report.output = "" ∧
    ∃ failure, report.failure? = some failure ∧ reply.error? = some failure.message

/-- A command line that makes the program work on a text. -/
structure Reads (arguments : List String) (contents : Source → Except ReadFault String)
    (i : Invocation) (text : String) : Prop where
  run : Command.ofArguments arguments = .run i
  source : ∃ source, i.source? = some source ∧ contents source = .ok text

section

variable {i : Invocation} {code text : String} {unit : Nat} {contents : Source → Except ReadFault String}

theorem tells_reportCode (hcode : code ≠ "") (h : unit ≤ Options.unitBound)
    (hunit : i.unit?.getD Element.standardUnit = unit) :
    (reportCode i code).Tells (answer (request code i.includeImports unit)) := by
  rw [answer, Query.read_eq (Options.read_request i.includeImports h), Query.readCode_eq rfl hcode]
  by_cases hblank : (Text.trimmed code).isEmpty = true
  · rw [if_pos hblank, reportCode, if_pos hblank]
    exact ⟨fun h => absurd h Bool.false_ne_true, fun _ => ⟨rfl, rfl, .blank, rfl, rfl⟩⟩
  · have hoptions : i.options = ⟨i.includeImports, unit⟩ := by rw [Invocation.options, hunit]
    rw [if_neg hblank, reportCode, if_neg hblank, hoptions]
    simp only [Except.map, Query.answer]
    cases hr : Conversion.read .standard (Text.trimmed code) with
    | ok c =>
      have hcan : Element.canReindent unit (document ⟨i.includeImports, unit⟩ c) = true :=
        canReindent_document hr ⟨i.includeImports, unit⟩ h
      simp only [hcan, if_true]
      exact ⟨fun _ => ⟨rfl, rfl, rfl⟩, fun h => absurd h.symm Bool.false_ne_true⟩
    | error fault =>
      exact ⟨fun h => absurd h Bool.false_ne_true, fun _ => ⟨rfl, rfl, .unread fault, rfl, rfl⟩⟩

/-- Which logs are shown changes nothing else. -/
theorem tells_report {reply : Reply} (h : (i.fullReport contents).Tells reply)
    (environment? : Option String) : (i.report environment? contents).Tells reply :=
  ⟨h.succeeded, h.failed⟩

theorem Reads.fullReport_eq {arguments : List String} (h : Reads arguments contents i text) :
    i.fullReport contents = if i.json then reportJson text else reportCode i text := by
  obtain ⟨source, hsource, htext⟩ := h.source
  rw [Invocation.fullReport, hsource]
  simp only [htext]

end

/-- A command line that makes the program work on a source text is told what the service replies to a
request for it, and with `--json` it is told the reply. The flags for imports and for a unit, in either
order and however they are written, are read as what they say. -/
theorem frontEnds_agree (environment? : Option String) (contents : Source → Except ReadFault String) :
    (∀ arguments i code unit, Reads arguments contents i code → i.json = false → code ≠ "" →
      i.unit?.getD Element.standardUnit = unit → unit ≤ Options.unitBound →
      ((Command.ofArguments arguments).report environment? contents).Tells
        (answer (request code i.includeImports unit))) ∧
    (∀ arguments i text, Reads arguments contents i text → i.json = true →
      ∃ logs, (Command.ofArguments arguments).report environment? contents =
        ⟨0, (answerText text).json.write ++ "\n", logs, none⟩) ∧
    (∀ imports unit settings spelled, unit ≤ Options.unitBound → settings.Perm (flags imports unit) →
      List.Forall₂ Setting.Spells settings spelled →
      Command.ofArguments spelled.flatten = .run ⟨none, false, imports, false, some unit, none⟩) ∧
    (∀ imports unit, List.Forall₂ Setting.Spells (flags imports unit)
      ((if imports then [["--include-imports"]] else []) ++ [["--indent-size", toString unit]])) ∧
    Command.ofArguments ["--json"] = .run ⟨none, true, false, false, none, none⟩ := by
  refine ⟨fun arguments i code unit h hjson hcode hunit hbound => ?_, fun arguments i text h hjson => ?_,
    fun imports unit settings spelled hbound hperm hspelled => ?_, spells_flags, rfl⟩
  · have hreport := h.fullReport_eq
    rw [hjson, if_neg Bool.false_ne_true] at hreport
    rw [h.run]
    apply tells_report
    rw [hreport]
    exact tells_reportCode hcode hbound hunit
  · have hreport := h.fullReport_eq
    rw [hjson, if_pos rfl] at hreport
    rw [h.run, Command.report, Invocation.report, hreport, reportJson]
    exact ⟨_, rfl⟩
  · exact ofArguments_flags (hbound.trans (by decide)) hperm hspelled

/-- A widget on the standard input, with both flags, and then a request that is no object. -/
theorem frontEnds_agree_text :
    ((Command.ofArguments ["--indent-size", "4", "--include-imports"]).report none
      fun _ => .ok "Text('Hi')").Tells (answer (request "Text('Hi')" true 4)) ∧
    ((Command.ofArguments ["--json"]).report none fun _ => .ok "[]").output =
      (answerText "[]").json.write ++ "\n" := by
  constructor
  · obtain ⟨htells, -, hflags, -, -⟩ := frontEnds_agree none fun _ => .ok "Text('Hi')"
    have hspelled : List.Forall₂ Setting.Spells [.option "indent-size" "4", .flag "include-imports"]
        [["--indent-size", "4"], ["--include-imports"]] :=
      .cons (.apart (by decide) rfl) (.cons (.flag (by decide)) .nil)
    have hrun : Command.ofArguments ["--indent-size", "4", "--include-imports"] =
        .run ⟨none, false, true, false, some 4, none⟩ :=
      hflags true 4 _ _ (by decide) (List.Perm.swap _ _ _) hspelled
    exact htells _ ⟨none, false, true, false, some 4, none⟩ "Text('Hi')" 4
      ⟨hrun, .standardInput, rfl, rfl⟩ rfl (by decide) rfl (by decide)
  · obtain ⟨-, hjson, -, -, hrun⟩ := frontEnds_agree none fun _ => .ok "[]"
    obtain ⟨logs, hreport⟩ := hjson _ _ _ ⟨hrun, .standardInput, rfl, rfl⟩ rfl
    rw [hreport]

end CommandLine

end WidgetJsx
