import WidgetJsx.Element.Builder
import WidgetJsx.Proofs.Display

/-! What a builder builds has nothing to do with what it built before. Building a widget gives the element
that the widget becomes by itself; only the names and warnings that the builder keeps go on, by the unknown
names of the widget in their order. A style is made from what the arguments hold besides widgets, so that
no widget in an argument shows in an element. -/

namespace WidgetJsx

/-- An argument without the widgets that it holds. -/
def Argument.hollow {W : Type} : Argument W → Argument Unit
  | string text => string text
  | number text => number text
  | boolean value => boolean value
  | reference path => reference path
  | construction text => construction text
  | widget _ => widget ()
  | widgets _ => widgets []
  | raw text => raw text

section

variable {W : Type}

@[simp] theorem Argument.text?_hollow (a : Argument W) : a.hollow.text? = a.text? := by
  cases a <;> rfl

@[simp] theorem Argument.dimension?_hollow (a : Argument W) : a.hollow.dimension? = a.dimension? := by
  cases a <;> rfl

end

/-- The values of all entries, one by one. -/
def Fields.mapValues {α β : Type} (f : α → β) (fs : Fields α) : Fields β :=
  ⟨fs.entries.map fun entry => (entry.1, f entry.2)⟩

theorem Fields.get?_mapValues {α β : Type} (f : α → β) (fs : Fields α) (key : String) :
    (fs.mapValues f).get? key = (fs.get? key).map f := by
  obtain ⟨entries⟩ := fs
  simp only [get?, mapValues]
  induction entries with
  | nil => rfl
  | cons entry entries ih =>
    rw [List.map_cons, List.lookup_cons, List.lookup_cons, ih]
    split <;> rfl

namespace Widget

/-- Two widgets of one name have one style if each argument has the same text in both and says the same
about how large something is. -/
theorem style_congr {v w : Widget} (hn : v.name = w.name)
    (ht : ∀ key, v.argumentText? key = w.argumentText? key)
    (hd : ∀ key, (v.argument? key >>= Argument.dimension?) = (w.argument? key >>= Argument.dimension?)) :
    v.style = w.style := by
  unfold style containerStyle textStyle flexStyle positionedStyle shareStyle dimensions
  simp only [hn, ht, hd]

/-- A style has nothing to do with the widgets in the arguments. -/
theorem style_hollow {v w : Widget} (hn : v.name = w.name)
    (ha : v.arguments.mapValues Argument.hollow = w.arguments.mapValues Argument.hollow) :
    v.style = w.style := by
  have hget : ∀ key, (v.argument? key).map Argument.hollow = (w.argument? key).map Argument.hollow := by
    intro key
    rw [argument?, argument?, ← Fields.get?_mapValues, ← Fields.get?_mapValues, ha]
  refine style_congr hn (fun key => ?_) fun key => ?_
  · have ht := congrArg (· >>= Argument.text?) (hget key)
    simpa [argumentText?, Option.bind_map, Function.comp_def] using ht
  · have hd := congrArg (· >>= Argument.dimension?) (hget key)
    simpa [Option.bind_map, Function.comp_def] using hd

/-- What holds of a widget as soon as it holds of what stands inside it holds of all widgets. -/
@[elab_as_elim]
theorem contentInduct {motive : Widget → Prop}
    (node : ∀ w, (∀ v ∈ w.content.toList, motive v) → motive w) (w : Widget) : motive w :=
  node w fun v _ => contentInduct node v
termination_by sizeOf w
decreasing_by exact sizeOf_lt_of_mem_content ‹_›

theorem unknownNames_eq (w : Widget) : w.unknownNames =
    (if Catalog.isKnown w.name then [] else [w.name]) ++ w.content.toList.flatMap unknownNames := by
  rw [unknownNames, nested_eq, List.map_cons, List.filter_cons, List.map_flatMap, List.filter_flatMap]
  cases Catalog.isKnown w.name <;> rfl

end Widget

namespace Builder

/-- The rules are for known widgets, so that a name is noted just when it is unknown. -/
theorem run_style (w : Widget) (b : Builder) :
    (style w).run b = (w.style, if Catalog.isKnown w.name then b else b.note w.name) := by
  unfold style
  split
  case h_14 =>
    have hs : w.style = ∅ := by
      unfold Widget.style
      split <;> first | contradiction | rfl
    rw [hs]
    cases Catalog.isKnown w.name <;> rfl
  all_goals
    rename_i hn
    unfold Widget.style
    rw [hn]
    rfl

theorem build_eq (w : Widget) : build w = do
    let style ← style w
    let children ← w.content.toList.mapM build
    return { component := Catalog.component w.name
             style
             text? := if Widget.isTextName w.name then w.text? else none
             children } := by
  rw [build]
  simp

theorem run_bind {σ α β : Type} {x : StateM σ α} {s s' : σ} {a : α} (h : x.run s = (a, s'))
    (f : α → StateM σ β) : (x >>= f).run s = (f a).run s' := by
  change (f (x.run s).1).run (x.run s).2 = _
  rw [h]

theorem run_mapM {σ α β : Type} {f : α → StateM σ β} {g : α → β} {next : σ → α → σ} {l : List α}
    (h : ∀ a ∈ l, ∀ s, (f a).run s = (g a, next s a)) (s : σ) :
    (l.mapM f).run s = (l.map g, l.foldl next s) := by
  induction l generalizing s with
  | nil => rfl
  | cons a l ih =>
    have hl := ih (fun c hc => h c (List.mem_cons_of_mem _ hc))
    rw [List.mapM_cons, run_bind (h a List.mem_cons_self s), run_bind (hl (next s a))]
    rfl

/-- What a builder builds of a widget, and the names that it notes on the way. -/
theorem run_build (w : Widget) (b : Builder) :
    (build w).run b = (Element.ofWidget w, w.unknownNames.foldl note b) := by
  induction w using Widget.contentInduct generalizing b with
  | node w ih =>
    have hchildren : ∀ b : Builder, (w.content.toList.mapM build).run b =
        (w.content.toList.map Element.ofWidget,
          w.content.toList.foldl (fun b v => v.unknownNames.foldl note b) b) := run_mapM ih
    have hnames : w.unknownNames.foldl note b =
        (w.content.toList.foldl (fun b v => v.unknownNames.foldl note b)
          (if Catalog.isKnown w.name then b else b.note w.name)) := by
      rw [Widget.unknownNames_eq, List.foldl_append, List.foldl_flatMap]
      cases Catalog.isKnown w.name <;> rfl
    rw [build_eq, hnames, run_bind (run_style w b), run_bind (hchildren _)]
    rw [Element.ofWidget]
    simp
    rfl

theorem run_build_fst (w : Widget) (b : Builder) : ((build w).run b).1 = Element.ofWidget w := by
  rw [run_build]

/-- Building does not depend on what was built before. Each node is that of a widget nested in the root:
its component is that of the widget's name, its text the text of a widget that shows one, its style
comes from the name and from what the arguments hold besides widgets, and its children are what is built
of the widgets inside, in their order. -/
theorem build_independent (b : Builder) (w : Widget) :
    let e := ((build w).run b).1
    e = ((build w).run new).1 ∧
      e.component = Catalog.component w.name ∧
      e.text? = (if Widget.isTextName w.name then w.text? else none) ∧
      e.children = w.content.toList.map (fun v => ((build v).run new).1) ∧
      e.nodes = w.nested.map (fun v => ((build v).run new).1) ∧
      ∀ (b' : Builder) (v : Widget), v.name = w.name →
        v.arguments.mapValues Argument.hollow = w.arguments.mapValues Argument.hollow →
          ((build v).run b').1.style = e.style := by
  simp only [run_build_fst]
  refine ⟨trivial, Element.ofWidget_component w, Element.ofWidget_text? w,
    Element.ofWidget_children w, Element.nodes_ofWidget w, fun _ v hn ha => ?_⟩
  rw [Element.ofWidget, Element.ofWidget]
  exact Widget.style_hollow hn ha

/-- A builder that knows the name by now builds the same, and a widget in an argument is not read. -/
theorem build_independent_card :
    let b : Builder := ⟨["Card"], [Catalog.warning "Card"]⟩
    let card (title : String) : Widget := ⟨"Card", ⟨[("title", .widget ⟨"Text", ⟨[]⟩, some title, .none⟩)]⟩,
      none, .child ⟨"Text", ⟨[]⟩, some "a", .none⟩⟩
    ((build (card "b")).run b).1 = ((build (card "b")).run new).1 ∧
      ((build (card "c")).run new).1.style = ((build (card "b")).run b).1.style := by
  intro b card
  obtain ⟨hfresh, -, -, -, -, hstyle⟩ := build_independent b (card "b")
  exact ⟨hfresh, hstyle new (card "c") rfl rfl⟩

end Builder

end WidgetJsx
