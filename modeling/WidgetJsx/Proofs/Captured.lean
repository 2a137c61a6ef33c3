import WidgetJsx.Proofs.Descent
import WidgetJsx.Proofs.PlainCall
import WidgetJsx.Proofs.Subtree

/-! The text of a call that builds a value is kept unread in a tree. It stands in one piece in the source,
and reading it on its own finds the same name and the same brackets, so that nothing but the depth of
the widgets inside can stop that. -/

namespace WidgetJsx

open Expression Text

section

variable {descend : Call → Except Fault Widget}

/-- Each argument that a widget keeps is read from a form ahead of the place where its list begins. -/
theorem exists_form_of_mem_arguments {call : Call} {w : Widget} (h : readBody descend call = .ok w)
    {key : String} {value : Argument Widget} (hm : (key, value) ∈ w.arguments.entries) :
    ∃ k form n, readForm (call.arguments.forward k) = .ok (form, n) ∧
      readArgument descend form = .ok value := by
  obtain ⟨k, entries, he, hw⟩ := readBody_cases h
  have hnamed : (key, value) ∈ (Entry.named entries).entries := by
    rcases hw with ⟨-, text, rfl⟩ | rfl
    · exact hm
    · exact Content.mem_split hm
  rcases he with he | rfl
  · obtain ⟨-, j, form, n, hf, ha⟩ := exists_of_mem_readEntries he (mem_named hnamed)
    rw [Cursor.forward_forward] at hf
    exact ⟨k + j, form, n, hf, ha⟩
  · exact absurd (mem_named hnamed) List.not_mem_nil

end

theorem callAt_of_construction {s : Cursor} {text : String} {n : Nat}
    (h : readForm s = .ok (.construction text, n)) :
    ∃ call m, CallAt (unworded s) call m ∧ text = String.ofList (cut (unworded s) m).ahead := by
  cases formAt_of_readForm h with
  | construction hc hw => exact ⟨_, _, hc, rfl⟩

/-- A captured call stands in one piece among the arguments of the call that a tree is read from. -/
theorem exists_callAt_of_captured {allowed left : Nat} {call : Call} {root w : Widget}
    (h : readWidget allowed left call = .ok root) (hw : Widget.Within w root) {key text : String}
    (ht : (key, .construction text) ∈ w.arguments.entries) :
    ∃ t inner n, t.ahead <:+: call.arguments.ahead ∧ CallAt t inner n ∧
      text = String.ofList (cut t n).ahead := by
  have hdirect : ∀ outer : Call, readWidget allowed left outer = .ok w →
      ∃ t inner n, t.ahead <:+: outer.arguments.ahead ∧ CallAt t inner n ∧
        text = String.ofList (cut t n).ahead := by
    intro outer hr
    obtain ⟨left, rfl, hb⟩ := readWidget_eq_ok hr
    obtain ⟨k, form, n, hf, ha⟩ := exists_form_of_mem_arguments hb ht
    rw [form_of_readArgument ha rfl] at hf
    obtain ⟨inner, m, hc, rfl⟩ := callAt_of_construction hf
    refine ⟨_, inner, m, ?_, hc, rfl⟩
    rw [unworded, Cursor.forward_forward]
    exact (outer.arguments.forward_suffix _).isInfix
  rcases exists_callAt_of_within h hw with rfl | ⟨t, n, outer, hi, hc, -, hr⟩
  · exact hdirect call h
  · obtain ⟨u, inner, m, hu, hinner, rfl⟩ := hdirect outer hr
    exact ⟨u, inner, m, hu.trans (hc.arguments_infix.trans hi), hinner, rfl⟩

/-- Where the brackets match, a call is read unless the widgets inside nest too deep. -/
theorem Construction.read_cases {source : String} {call : Call} {rest : Cursor}
    (hb : source.utf8ByteSize ≤ Limits.standard.bytes)
    (hc : readCall (.ofList source.toList) = .ok (call, rest)) (he : expectEnd rest = .ok ())
    (ht : Tame call.arguments) :
    (¬ Deeper Limits.standard.depth call.arguments ∧
        ∃ c, Construction.read source = .ok c ∧ c.name = call.name) ∨
      Deeper Limits.standard.depth call.arguments ∧ ∃ position,
        Construction.read source = .error ⟨position, .tooDeep Limits.standard.depth⟩ := by
  rcases ht.readEntries_cases Limits.standard.depth Limits.standard.depth with
    ⟨hd, entries, hr⟩ | ⟨hd, position, hr⟩
  · exact .inl ⟨hd, ⟨call.name, Entry.positional entries, Entry.named entries⟩,
      read_eq_ok_iff.mpr ⟨hb, call, rest, entries, hc, hr, he, rfl⟩, rfl⟩
  · refine .inr ⟨hd, position, ?_⟩
    rw [read_of_readCall hb hc, hr]
    rfl

/-- The text of a captured call is read again, under the name it begins with, and is found by whoever
looks for a construction of that name, unless the widgets inside it nest deeper than the standard limit. -/
theorem Construction.read_captured {source : String} {root w : Widget} {key text : String}
    (h : Widget.read .standard source = .ok root) (hangle : '<' ∉ source.toList)
    (hraw : ∀ q, isQuote q = true → ¬ ['.', 'r', q] <:+: source.toList) (hw : Widget.Within w root)
    (ht : (key, .construction text) ∈ w.arguments.entries)
    (hk : ∀ word ∈ keywords, startsWithWord word text.toList = false) :
    ∃ call rest, readCall (.ofList text.toList) = .ok (call, rest) ∧
      call.name = String.ofList (text.toList.take (pathLength text.toList)) ∧
      ((¬ Deeper Limits.standard.depth call.arguments ∧
          ∃ c, Construction.read text = .ok c ∧ c.name = call.name ∧
            Widget.construction? (some text) call.name = some c) ∨
        Deeper Limits.standard.depth call.arguments ∧ ∃ position,
          Construction.read text = .error ⟨position, .tooDeep Limits.standard.depth⟩) := by
  obtain ⟨hb, outer, rest, hc, -, hr, -⟩ := Widget.read_eq_ok_iff.mp h
  obtain ⟨t, inner, n, hi, hinner, rfl⟩ := exists_callAt_of_captured hr hw ht
  rw [String.toList_ofList] at hk ⊢
  have hpart : (cut t n).ahead <:+: source.toList :=
    (List.take_prefix n _).isInfix.trans (hi.trans (arguments_infix_of_readCall hc))
  obtain ⟨own, rest', -, hcall, hown, hend⟩ :=
    readCall_cut_of_keywordLength hinner (keywordLength_eq_zero hk)
  refine ⟨own, rest', hown, hcall.name_eq, ?_⟩
  have hown' : readCall (.ofList (String.ofList (cut t n).ahead).toList) = .ok (own, rest') := by
    rw [String.toList_ofList]
    exact hown
  have hsize : (String.ofList (cut t n).ahead).utf8ByteSize ≤ source.utf8ByteSize :=
    utf8ByteSize_le_of_isInfix (by rwa [String.toList_ofList])
  have harguments : own.arguments.ahead <:+: source.toList := hcall.arguments_infix.trans hpart
  have htame : Tame own.arguments :=
    ⟨hcall.level, fun hm => hangle (harguments.subset hm),
      fun q hq hr => hraw q hq (hr.trans harguments)⟩
  rcases Construction.read_cases (hsize.trans hb) hown' hend htame with ⟨hd, c, hread, hname⟩ | hdeep
  · exact .inl ⟨hd, c, hread, hname, by simp [Widget.construction?, hread, hname]⟩
  · exact .inr hdeep

theorem Construction.read_captured_padding :
    ∃ call rest, readCall (.ofList "EdgeInsets.all(8)".toList) = .ok (call, rest) ∧
      call.name = "EdgeInsets.all" ∧
      ((¬ Deeper Limits.standard.depth call.arguments ∧
          ∃ c, Construction.read "EdgeInsets.all(8)" = .ok c ∧ c.name = call.name ∧
            Widget.construction? (some "EdgeInsets.all(8)") call.name = some c) ∨
        Deeper Limits.standard.depth call.arguments ∧ ∃ position,
          Construction.read "EdgeInsets.all(8)" =
            .error ⟨position, .tooDeep Limits.standard.depth⟩) := by
  have hpath : PathOf ["EdgeInsets".toList, "all".toList] "EdgeInsets.all".toList :=
    ⟨by decide, by decide, by decide⟩
  have hvalue : Argument.Writable (.construction "EdgeInsets.all(8)") :=
    ⟨_, _, [], ['8'], hpath, by unfold Unreserved; decide, .nil, by decide, by decide, by cbv⟩
  obtain ⟨hwhole, hdepth⟩ := @Widget.whole_singleton "Padding" "padding"
    (.construction "EdgeInsets.all(8)") none (by decide) (by decide) (by simp) (by decide) (by decide)
    hvalue rfl
  have hentry : Layout (.sequence [.entry "padding" (.construction "EdgeInsets.all(8)")])
      ("padding".toList ++ ':' :: ' ' :: "EdgeInsets.all(8)".toList) :=
    @layout_sequence _ [] _ .nil (layout_entry (.construction .none))
  have hread : Widget.read .standard "Padding(padding: EdgeInsets.all(8))" = .ok _ :=
    hwhole.read_plain (.arguments rfl .none hentry) (by decide) (by decide) (by rw [hdepth]; decide)
  -- by way of `List.all`, so that deciding it walks the text and not every character there is
  have hall : "Padding(padding: EdgeInsets.all(8))".toList.all (fun c => !isQuote c) = true := by decide
  have hraw : ∀ q, isQuote q = true →
      ¬ ['.', 'r', q] <:+: "Padding(padding: EdgeInsets.all(8))".toList := by
    intro q hq hi
    have hnot := List.all_eq_true.mp hall q (hi.subset (by simp))
    simp [hq] at hnot
  exact Construction.read_captured hread (by decide) hraw .refl (List.mem_singleton.mpr rfl) (by decide)

end WidgetJsx
