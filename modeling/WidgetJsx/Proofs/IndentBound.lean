import WidgetJsx.Proofs.FrontEnds

/-! The number of spaces in front of a line of output, as a number of 64 bits. The limit on the source bounds
how far a line can be indented, so that there is room for it with any unit that a request may ask for. The
command line takes larger units, and with these there is not always room. -/

namespace WidgetJsx.CommandLine

open Element Service

/-- No line of output needs more spaces than 64 bits can count, whatever a request asks for, and whatever a
command line asks for with a unit below two to the power of 45. -/
theorem indentation_fits {code : String} {c : Conversion} (h : Conversion.read .standard code = .ok c) :
    (∀ params options, Query.read params = .ok ⟨code, options⟩ →
      ∀ line ∈ Text.lines (document options c).toList, indentation options.unit line < 2 ^ 64) ∧
    (∀ arguments i, Command.ofArguments arguments = .run i → i.options.unit < 2 ^ 45 →
      ∀ line ∈ Text.lines (document i.options c).toList, indentation i.options.unit line < 2 ^ 64) := by
  refine ⟨fun params options hq line hl => ?_, fun arguments i _ hunit line hl => ?_⟩
  · have hunit : options.unit ≤ 4294967295 := Query.unit_le_of_read hq
    have := indentation_le h options hl
    omega
  · have := indentation_le h i.options hl
    omega

theorem trimmed_brokenText : Text.trimmed "Text('a\n    b')" = "Text('a\n    b')" := rfl

set_option maxRecDepth 4000 in
theorem read_brokenText : Conversion.read .standard "Text('a\n    b')" =
    .ok (.ofWidget ⟨"Text", ⟨[]⟩, some "a\n    b", .none⟩) := by
  have h : Widget.read .standard "Text('a\n    b')" = .ok ⟨"Text", ⟨[]⟩, some "a\n    b", .none⟩ := by cbv
  rw [Conversion.read_eq, h]
  rfl

/-- A text with a line break in it, with a unit from a request and with one from a command line. -/
theorem indentation_fits_text : ∃ c, Conversion.read .standard "Text('a\n    b')" = .ok c ∧
    (∀ line ∈ Text.lines (document ⟨true, 4⟩ c).toList, indentation 4 line < 2 ^ 64) ∧
    ∀ line ∈ Text.lines (document ⟨false, 8⟩ c).toList, indentation 8 line < 2 ^ 64 := by
  have hquery : Query.read (request "Text('a\n    b')" true 4) =
      .ok ⟨"Text('a\n    b')", ⟨true, 4⟩⟩ := by
    rw [Query.read_eq (Options.read_request true (by decide)), Query.readCode_eq rfl (by decide),
      trimmed_brokenText, if_neg (by decide)]
    rfl
  have hrun : Command.ofArguments ["--indent-size", "8"] =
      .run ⟨none, false, false, false, some 8, none⟩ := rfl
  have hunit : (8 : Nat) < 2 ^ 45 := by omega
  obtain ⟨hrequest, hline⟩ := indentation_fits read_brokenText
  have hasked := hrequest _ _ hquery
  have htold := hline _ _ hrun hunit
  exact ⟨_, read_brokenText, hasked, htold⟩

/-- The largest unit that the command line takes needs more spaces for the second line of the same text. So
they cannot be written, and the program ends without any output. -/
theorem indentation_overflows :
    ∃ i c line, Command.ofArguments ["--indent-size", "18446744073709551615"] = .run i ∧
      Conversion.read .standard (Text.trimmed "Text('a\n    b')") = .ok c ∧
      line ∈ Text.lines (document i.options c).toList ∧ 2 ^ 64 ≤ indentation i.options.unit line ∧
      (reportCode i "Text('a\n    b')").exitCode = 101 := by
  let i : Invocation := ⟨none, false, false, false, some 18446744073709551615, none⟩
  have hdocument : document i.options (.ofWidget ⟨"Text", ⟨[]⟩, some "a\n    b", .none⟩) =
      "<Text>a\n    b</Text>\n" := by cbv
  have hcan : canReindent i.options.unit "<Text>a\n    b</Text>\n" = false := by decide +kernel
  refine ⟨i, .ofWidget ⟨"Text", ⟨[]⟩, some "a\n    b", .none⟩, "    b</Text>".toList, rfl, ?_, ?_, ?_, ?_⟩
  · rw [trimmed_brokenText]
    exact read_brokenText
  · rw [hdocument]
    decide
  · decide +kernel
  · rw [reportCode, trimmed_brokenText, if_neg (by decide), read_brokenText]
    simp only [hdocument, hcan]
    rfl

end WidgetJsx.CommandLine
