import WidgetJsx.Proofs.Name

/-! The grammar of dotted paths beside the function that measures them. -/

namespace WidgetJsx.Expression

/-- A path is made of names that dots keep apart. -/
structure PathOf (names : List (List Char)) (cs : List Char) : Prop where
  ne_nil : names ≠ []
  isName : ∀ name ∈ names, IsName name
  eq : cs = ['.'].intercalate names

theorem intercalate_cons {c : Char} (name : List Char) (names : List (List Char)) :
    [c].intercalate (name :: names) = name ++ names.flatMap (c :: ·) := by
  induction names generalizing name with
  | nil => simp
  | cons next names ih =>
    rw [List.flatMap_cons, List.cons_append, ← ih next]
    simp [List.intercalate, List.intersperse]

theorem pathLength_go_add (m n : Nat) (cs : List Char) :
    pathLength.go (m + n) cs = m + pathLength.go n cs := by
  fun_induction pathLength.go n cs <;> simp_all [pathLength.go, Nat.add_assoc]

/-- A path does not go on into the text. -/
def PathStops (cs : List Char) : Prop := pathLength.go 0 cs = 0

theorem pathLength_go_cons {c : Char} (hc : isNameChar c = true) (n : Nat) (cs : List Char) :
    pathLength.go n (c :: cs) = pathLength.go (n + 1) cs := by
  have hd : c ≠ '.' := ne_of_isNameChar hc
  simp [pathLength.go, hd, hc]

theorem PathStops.go_eq {cs : List Char} (h : PathStops cs) (n : Nat) : pathLength.go n cs = n := by
  have := pathLength_go_add n 0 cs
  rwa [Nat.add_zero, h, Nat.add_zero] at this

theorem PathStops.ends {cs : List Char} (h : PathStops cs) : Ends cs := by
  cases cs with
  | nil => simp [Ends]
  | cons c cs =>
    refine ends_cons (Bool.eq_false_iff.mpr fun hc => ?_) cs
    rw [PathStops, pathLength_go_cons hc, Nat.zero_add, pathLength_go_add 1 0] at h
    omega

theorem pathStops_cons {c : Char} (hc : isNameChar c = false)
    {cs : List Char} (hd : ∀ d ds, c = '.' → cs = d :: ds → isNameStart d = false) :
    PathStops (c :: cs) := by
  rw [PathStops, pathLength.go.eq_def]
  split <;> simp_all

theorem Breaks.pathStops {cs : List Char} (h : Breaks cs) : PathStops cs := by
  cases cs with
  | nil => rfl
  | cons c cs => exact pathStops_cons (h c rfl).1 fun _ _ hd => absurd hd (h c rfl).2.1

theorem PathStops.take {cs : List Char} (h : PathStops cs) (m : Nat) : PathStops (cs.take m) := by
  cases cs with
  | nil => simpa using h
  | cons c cs =>
    cases m with
    | zero => rfl
    | succ m =>
      refine pathStops_cons (h.ends c rfl) ?_
      rintro d ds rfl hd
      obtain ⟨es, rfl⟩ : ∃ es, cs = d :: es := by
        cases cs with
        | nil => simp at hd
        | cons e es =>
          cases m with
          | zero => simp at hd
          | succ m => exact ⟨es, by rw [(List.cons.inj hd).1]⟩
      apply Bool.eq_false_iff.mpr
      intro hs
      rw [PathStops, pathLength.go, if_pos hs, pathLength_go_add 1 0] at h
      omega

theorem pathLength_go_append {u : List Char} (h : ∀ c ∈ u, isNameChar c = true) (n : Nat)
    (rest : List Char) : pathLength.go n (u ++ rest) = pathLength.go (n + u.length) rest := by
  induction u generalizing n with
  | nil => rfl
  | cons c u ih =>
    rw [List.cons_append, pathLength_go_cons (h c (by simp)), ih fun d hd => h d (by simp [hd])]
    congr 1
    simp only [List.length_cons]
    omega

theorem pathLength_go_flatMap {names : List (List Char)} (h : ∀ name ∈ names, IsName name)
    {rest : List Char} (hr : PathStops rest) (n : Nat) :
    pathLength.go n (names.flatMap ('.' :: ·) ++ rest) =
      n + (names.flatMap ('.' :: ·)).length := by
  induction names generalizing n with
  | nil => simpa using hr.go_eq n
  | cons name names ih =>
    have hn := h name (by simp)
    have hi := ih (fun u hu => h u (by simp [hu])) (n + 1 + name.length)
    cases name with
    | nil => exact absurd hn id
    | cons c name =>
      have hd : pathLength.go n ('.' :: c :: (name ++ (names.flatMap ('.' :: ·) ++ rest))) =
          pathLength.go (n + 1) (c :: name ++ (names.flatMap ('.' :: ·) ++ rest)) := by
        simp [pathLength.go, hn.1]
      rw [List.flatMap_cons, List.append_assoc, List.cons_append, List.cons_append, hd,
        pathLength_go_append hn.isNameChar, hi]
      simp only [List.length_cons, List.length_append]
      omega

theorem PathOf.pathLength_eq {names : List (List Char)} {u rest : List Char} (h : PathOf names u)
    (hr : PathStops rest) : pathLength (u ++ rest) = u.length := by
  obtain ⟨hne, hname, rfl⟩ := h
  cases names with
  | nil => exact absurd rfl hne
  | cons name names =>
    have hn := hname name (by simp)
    cases name with
    | nil => exact absurd hn id
    | cons c name =>
      rw [intercalate_cons, List.append_assoc, List.cons_append, pathLength, if_pos hn.1,
        pathLength_go_append hn.2,
        pathLength_go_flatMap (fun u hu => hname u (by simp [hu])) hr]
      simp only [List.cons_append, List.length_cons, List.length_append]
      omega

theorem pathLength_go_split (n : Nat) (cs : List Char) :
    ∃ (u : List Char) (names : List (List Char)) (rest : List Char),
      cs = u ++ names.flatMap ('.' :: ·) ++ rest ∧
      pathLength.go n cs = n + (u ++ names.flatMap ('.' :: ·)).length ∧
      (∀ c ∈ u, isNameChar c = true) ∧ (∀ name ∈ names, IsName name) ∧ PathStops rest := by
  -- `u` is what is left of the word that the reader stands in: nothing, right in front of a dot.
  fun_induction pathLength.go n cs with
  | case1 n c cs hc ih =>
    obtain ⟨u, names, rest, he, hn, hu, hnames, hr⟩ := ih
    have hname := isNameChar_of_isNameStart hc
    cases u with
    | nil =>
      cases names with
      | nil =>
        obtain rfl : c :: cs = rest := by simpa using he
        simp [hr.ends c rfl] at hname
      | cons name names =>
        obtain rfl := (List.cons.inj he).1
        exact absurd rfl (ne_of_isNameChar (d := '.') hname)
    | cons d u =>
      obtain ⟨rfl, rfl⟩ := List.cons.inj he
      refine ⟨[], (c :: u) :: names, rest, by simp, ?_, by simp, ?_, hr⟩
      · simp only [hn, List.flatMap_cons, List.length_append, List.length_cons, List.length_nil]
        omega
      · intro name hm
        rcases List.mem_cons.mp hm with rfl | hm
        · exact ⟨hc, fun d hd => hu d (by simp [hd])⟩
        · exact hnames name hm
  | case2 n c cs hc =>
    refine ⟨[], [], '.' :: c :: cs, rfl, rfl, by simp, by simp, ?_⟩
    exact pathStops_cons (by decide) fun d ds _ he => by simpa [(List.cons.inj he).1] using hc
  | case3 n c cs hd hc ih =>
    obtain ⟨u, names, rest, rfl, hn, hu, hnames, hr⟩ := ih
    refine ⟨c :: u, names, rest, rfl, ?_, ?_, hnames, hr⟩
    · simp only [hn, List.length_append, List.length_cons]
      omega
    · intro d hd
      rcases List.mem_cons.mp hd with rfl | hd
      · exact hc
      · exact hu d hd
  | case4 n c cs hd hc =>
    exact ⟨[], [], c :: cs, rfl, rfl, by simp, by simp,
      pathStops_cons (by simpa using hc) fun d ds hc he => absurd he (hd d ds hc)⟩
  | case5 n => exact ⟨[], [], [], rfl, rfl, by simp, by simp, rfl⟩

theorem path_split {cs : List Char} (h : 0 < pathLength cs) :
    ∃ names u rest, cs = u ++ rest ∧ pathLength cs = u.length ∧ PathOf names u ∧
      PathStops rest := by
  cases cs with
  | nil => simp [pathLength] at h
  | cons c cs =>
    by_cases hc : isNameStart c = true
    · obtain ⟨u, names, rest, rfl, hn, hu, hnames, hr⟩ := pathLength_go_split 1 cs
      refine ⟨(c :: u) :: names, c :: u ++ names.flatMap ('.' :: ·), rest, rfl, ?_,
        ⟨by simp, ?_, by rw [intercalate_cons]⟩, hr⟩
      · simp only [pathLength, hc, if_true, hn, List.length_append, List.length_cons]
        omega
      · intro name hm
        rcases List.mem_cons.mp hm with rfl | hm
        · exact ⟨hc, hu⟩
        · exact hnames name hm
    · simp [pathLength, hc] at h

theorem pathLength_le (cs : List Char) : pathLength cs ≤ cs.length := by
  by_cases h : 0 < pathLength cs
  · obtain ⟨-, u, rest, rfl, hu, -, -⟩ := path_split h
    simp [hu]
  · omega

theorem pathLength_take {cs : List Char} {m : Nat} (h : 0 < pathLength cs)
    (hm : pathLength cs ≤ m) : pathLength (cs.take m) = pathLength cs := by
  obtain ⟨names, u, rest, rfl, hu, hp, hr⟩ := path_split h
  rw [hu] at hm ⊢
  rw [List.take_append, List.take_of_length_le hm, hp.pathLength_eq (hr.take _)]

theorem pathOf_singleton {u : List Char} (h : IsName u) : PathOf [u] u :=
  ⟨by simp, by simpa using h, by simp⟩

namespace PathOf

variable {names : List (List Char)} {u : List Char}

theorem dot_mem_iff (h : PathOf names u) : '.' ∈ u ↔ 2 ≤ names.length := by
  obtain ⟨hne, hname, rfl⟩ := h
  cases names with
  | nil => exact absurd rfl hne
  | cons name names =>
    rw [intercalate_cons]
    cases names with
    | nil =>
      have hd : '.' ∉ name := fun hm =>
        ne_of_isNameChar (d := '.') ((hname name (by simp)).isNameChar _ hm) (by decide) rfl
      simpa using hd
    | cons next names => simp

theorem isName_of_undotted (h : PathOf names u) (hd : '.' ∉ u) : IsName u := by
  have hl := mt h.dot_mem_iff.mpr hd
  obtain ⟨hne, hname, rfl⟩ := h
  cases names with
  | nil => exact absurd rfl hne
  | cons name names =>
    cases names with
    | nil => simpa using hname
    | cons next names => simp at hl

theorem head_eq (h : PathOf names u) : ∃ name more, names.head? = some name ∧ IsName name ∧
    u = name ++ more ∧ ∀ c ∈ more.head?, c = '.' := by
  obtain ⟨hne, hname, rfl⟩ := h
  cases names with
  | nil => exact absurd rfl hne
  | cons name names =>
    refine ⟨name, names.flatMap ('.' :: ·), rfl, hname name (by simp), intercalate_cons _ _, ?_⟩
    cases names with
    | nil => simp
    | cons next names => simp

theorem head_append (h : PathOf names u) {rest : List Char} (hr : Ends rest) :
    ∃ name more, names.head? = some name ∧ IsName name ∧ u ++ rest = name ++ more ∧ Ends more := by
  obtain ⟨name, more, hhead, hname, rfl, hdot⟩ := h.head_eq
  refine ⟨name, more ++ rest, hhead, hname, List.append_assoc _ _ _, ?_⟩
  cases more with
  | nil => exact hr
  | cons c more =>
    obtain rfl := hdot c rfl
    exact ends_cons (by decide) _

theorem isNameChar_or_dot (h : PathOf names u) : ∀ c ∈ u, isNameChar c = true ∨ c = '.' := by
  obtain ⟨hne, hname, rfl⟩ := h
  cases names with
  | nil => exact absurd rfl hne
  | cons name names =>
    intro c hc
    simp only [intercalate_cons, List.mem_append, List.mem_flatMap, List.mem_cons] at hc
    rcases hc with hc | ⟨next, hm, rfl | hc⟩
    · exact .inl ((hname name (by simp)).isNameChar c hc)
    · exact .inr rfl
    · exact .inl ((hname next (by simp [hm])).isNameChar c hc)

end PathOf

end WidgetJsx.Expression
