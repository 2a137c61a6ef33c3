import Mathlib
import WidgetJsx.Proofs.Presentation
import WidgetJsx.Proofs.Validation
import WidgetJsx.Proofs.Warnings
import WidgetJsx.Proofs.WrittenJson

/-! Replies as a whole. A request is rejected, or not read, or converted, and each of these is told in its own
way, with nothing left over from a step before; the text that a reply is written as says the same. -/

namespace WidgetJsx

namespace Builder

theorem warnings_build (w : Widget) :
    ((build w).run new).2.warnings = (Conversion.ofWidget w).warnings := by
  rw [run_build, warnings_notes, Conversion.warnings, Conversion.unknownNames, Widget.allUnknownNames]
  simp [Conversion.ofWidget]

end Builder

namespace Service

/-- All that a reply tells. -/
structure Envelope where
  succeeded : Bool
  output? : Option String
  error? : Option String
  metadata? : Option Metadata
deriving DecidableEq

def Reply.envelope (r : Reply) : Envelope := ⟨r.succeeded, r.output?, r.error?, r.metadata?⟩

/-- There is an output just where there is a success, and an error just where there is none. -/
structure Envelope.Consistent (e : Envelope) : Prop where
  output : e.succeeded = true ↔ e.output?.isSome = true
  error : e.succeeded = true ↔ e.error? = none

/-- What a request is to be told. -/
inductive Answered (params : Json) : Envelope → Prop
  | converted {q : Query} {root : Widget} : Query.Valid params q → Widget.read .standard q.code = .ok root →
      Answered params ⟨true, some (present q.options ⟨root, ((Builder.build root).run .new).1⟩), none,
        some ⟨some root.name, some (Catalog.component root.name).name,
          ((Builder.build root).run .new).2.warnings, none⟩⟩
  | unread {q : Query} {fault : Expression.Fault} : Query.Valid params q →
      Widget.read .standard q.code = .error fault →
      Answered params ⟨false, none, some fault.message, some ⟨none, none, [], some "ParseError"⟩⟩
  | rejected {fault : Query.Fault} :
      Query.Check.First params (Query.Check.ofCode ++ Query.Check.ofOptions) fault →
      Answered params ⟨false, none, some fault.message, none⟩

theorem Reply.consistent (r : Reply) : r.envelope.Consistent := by
  cases r with
  | converted => exact ⟨iff_of_true rfl rfl, iff_of_true rfl rfl⟩
  | unread | rejected | malformed =>
    exact ⟨iff_of_false Bool.false_ne_true Bool.false_ne_true,
      iff_of_false Bool.false_ne_true (Option.some_ne_none _)⟩

theorem Answered.envelope_eq {params : Json} {e : Envelope} (h : Answered params e) :
    (answer params).envelope = e := by
  cases h with
  | @converted q root hq hroot =>
    have hpresent : present q.options ⟨root, ((Builder.build root).run .new).1⟩ =
        present q.options (.ofWidget root) := by rw [Builder.run_build_fst]; rfl
    rw [answer, Query.read_eq_ok_iff.mpr hq]
    change (Query.answer ⟨q.code, q.options⟩).envelope = _
    rw [answer_of_read hroot, hpresent, Builder.warnings_build, ← Element.ofWidget_component]
    rfl
  | @unread q fault hq hfault =>
    rw [answer, Query.read_eq_ok_iff.mpr hq]
    change (Query.answer ⟨q.code, q.options⟩).envelope = _
    rw [answer_of_fault hfault]
    rfl
  | rejected hfirst =>
    rw [answer, Query.read_eq_error_iff.mpr hfirst]
    rfl

theorem answered (params : Json) : Answered params (answer params).envelope := by
  cases hr : Query.read params with
  | error fault =>
    have h := Answered.rejected (Query.read_eq_error_iff.mp hr)
    rwa [h.envelope_eq]
  | ok q =>
    have hq := Query.read_eq_ok_iff.mp hr
    cases hroot : Widget.read .standard q.code with
    | error fault =>
      have h := Answered.unread hq hroot
      rwa [h.envelope_eq]
    | ok root =>
      have h := Answered.converted hq hroot
      rwa [h.envelope_eq]

section

variable {r : Reply} {m : Metadata}

/-- What is told of a conversion is all there, and what there is not to tell is left out. -/
structure Metadata.Shown (m : Metadata) (v : Json) : Prop where
  widget : v.get? "input_widget" = m.widget?.map .string
  component : v.get? "output_component" = m.component?.map .string
  warnings : v.get? "warnings" =
    if m.warnings = [] then none else some (.array (m.warnings.map .string))
  faultKind : v.get? "error_type" = m.faultKind?.map .string

structure Envelope.Shown (e : Envelope) (v : Json) : Prop where
  succeeded : v.get? "success" = some (.boolean e.succeeded)
  output : v.get? "output" = some (nullable e.output?)
  error : v.get? "error" = some (nullable e.error?)
  metadata : Option.Rel Metadata.Shown e.metadata? (v.get? "metadata")

theorem Metadata.shown_json (m : Metadata) : m.Shown m.json := by
  obtain ⟨widget?, component?, warnings, faultKind?⟩ := m
  cases widget? <;> cases component? <;> cases faultKind? <;> cases warnings <;> exact ⟨rfl, rfl, rfl, rfl⟩

theorem Reply.shown_json (r : Reply) : r.envelope.Shown r.json := by
  have hmetadata : r.json.get? "metadata" = r.metadata?.map Metadata.json := by
    cases r <;> rfl
  refine ⟨rfl, rfl, rfl, ?_⟩
  rw [hmetadata]
  change Option.Rel Metadata.Shown r.metadata? _
  cases r.metadata? with
  | none => exact .none
  | some m => exact .some m.shown_json

theorem plain_optionalText (levels : Nat) (key : String) (text? : Option String) :
    ∀ entry ∈ optionalText key text?, Json.Plain levels entry.2 := by
  intro entry h
  obtain ⟨text, -, rfl⟩ := List.mem_map.mp h
  cases levels <;> trivial

theorem Metadata.plain_json (m : Metadata) : Json.Plain 2 m.json := by
  have hkeys : (optionalText "input_widget" m.widget? ++ optionalText "output_component" m.component? ++
      (if m.warnings.isEmpty then [] else [("warnings", Json.array (m.warnings.map .string))]) ++
        optionalText "error_type" m.faultKind?).map Prod.fst |>.Nodup := by
    obtain ⟨widget?, component?, warnings, faultKind?⟩ := m
    cases widget? <;> cases component? <;> cases faultKind? <;> cases warnings <;> simp [optionalText]
  refine ⟨hkeys, fun entry h => ?_⟩
  rcases List.mem_append.mp h with h | h
  swap
  · exact plain_optionalText _ _ _ entry h
  rcases List.mem_append.mp h with h | h
  · rcases List.mem_append.mp h with h | h
    · exact plain_optionalText _ _ _ entry h
    · exact plain_optionalText _ _ _ entry h
  · split at h
    · cases h
    · obtain rfl := List.mem_singleton.mp h
      intro v hv
      obtain ⟨text, -, rfl⟩ := List.mem_map.mp hv
      trivial

theorem plain_nullable (levels : Nat) (text? : Option String) : Json.Plain levels (nullable text?) := by
  cases levels <;> cases text? <;> trivial

theorem Reply.plain_json (r : Reply) : Json.Plain 3 r.json := by
  have hkeys : ([("success", Json.boolean r.succeeded), ("output", nullable r.output?),
      ("error", nullable r.error?)] ++
        r.metadata?.toList.map fun m => ("metadata", m.json)).map Prod.fst |>.Nodup := by
    cases r.metadata? <;> simp
  refine ⟨hkeys, fun entry h => ?_⟩
  rcases List.mem_append.mp h with h | h
  · simp only [List.mem_cons, List.not_mem_nil, or_false] at h
    rcases h with rfl | rfl | rfl
    · trivial
    · exact plain_nullable _ _
    · exact plain_nullable _ _
  · obtain ⟨m, -, rfl⟩ := List.mem_map.mp h
    exact m.plain_json

end

/-- Every reply tells what a request is to be told, with an output or an error and never both or neither. A
request in JSON is told what its value is, and a text that is no JSON that it is none; what is written of
either is read as a value that shows the same. -/
theorem answers_consistent :
    (∀ params e, (answer params).envelope = e ↔ Answered params e) ∧
    (∀ params, (answer params).envelope.Consistent) ∧
    ∀ text,
      ((∃ params, Json.read Json.standardLimit text = .ok params ∧ answerText text = answer params) ∨
        ∃ fault, Json.read Json.standardLimit text = .error fault ∧ (answerText text).envelope =
          ⟨false, none, some ("Invalid request JSON: " ++ fault.message),
            some ⟨none, none, [], some "InvalidJson"⟩⟩) ∧
      ∃ v, Json.read Json.standardLimit (answerText text).json.write = .ok v ∧
        (answerText text).envelope.Shown v := by
  refine ⟨fun params e => ⟨fun h => h ▸ answered params, Answered.envelope_eq⟩,
    fun params => (answer params).consistent, fun text => ⟨?_, (answerText text).json, ?_, ?_⟩⟩
  · cases h : Json.read Json.standardLimit text with
    | ok params => exact .inl ⟨params, rfl, by rw [answerText, h]⟩
    | error fault => exact .inr ⟨fault, rfl, by rw [answerText, h]; rfl⟩
  · exact Json.read_write (answerText text).plain_json (by decide)
  · exact (answerText text).shown_json

end Service

end WidgetJsx
