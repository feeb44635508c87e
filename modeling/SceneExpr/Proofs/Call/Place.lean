import SceneExpr.Proofs.Grammar.Items

namespace SceneExpr

/-- The source of an argument is a written one, or else stands in for it. -/
inductive Argument.Supplied (list : Span) (parameters : List Parameter) (written : List RawArgument)
    (kind : ValueKind) (source : String) : Origin → Prop where
  | written {a : RawArgument} : a ∈ written → source = String.ofList a.text →
      Supplied list parameters written kind source (.written a.start)
  | standIn {q : Parameter} : q ∈ parameters → q.generatorOnly = false →
      q.kind.valueKind? = some kind → source = (if q.optional then q.neutralValue else "") →
      Supplied list parameters written kind source (.standIn list)

namespace Argument.Supplied

variable {list : Span} {parameters : List Parameter} {written : List RawArgument} {kind : ValueKind}
  {source : String} {o : Origin}

theorem cons_parameter (q : Parameter) (h : Supplied list parameters written kind source o) :
    Supplied list (q :: parameters) written kind source o := by
  cases h with
  | written ha hsource => exact .written ha hsource
  | standIn hq hvisible hkind hsource =>
    exact .standIn (List.mem_cons_of_mem q hq) hvisible hkind hsource

theorem cons_written (a : RawArgument) (h : Supplied list parameters written kind source o) :
    Supplied list parameters (a :: written) kind source o := by
  cases h with
  | written ha hsource => exact .written (List.mem_cons_of_mem a ha) hsource
  | standIn hq hvisible hkind hsource => exact .standIn hq hvisible hkind hsource

end Argument.Supplied

theorem Parameter.eq_of_parsed_eq_argument {q : Parameter} {text : List Char} {origin o : Origin}
    {kind : ValueKind} {source : String} (h : .parsed kind source o = q.argument text origin) :
    q.kind.valueKind? = some kind ∧ source = String.ofList text ∧ o = origin := by
  unfold argument at h
  split at h
  next kind' hkind =>
    obtain ⟨rfl, rfl, rfl⟩ := Argument.parsed.inj h
    exact ⟨hkind, rfl, rfl⟩
  next => simp at h

theorem Binding.supplied_of_mem_place {list : Span} {ps : List Parameter} {as : List RawArgument}
    {kind : ValueKind} {source : String} {o : Origin}
    (h : .parsed kind source o ∈ place list ps as) :
    Argument.Supplied list ps as kind source o := by
  fun_induction place list ps as with
  | case1 => simp at h
  | case2 q ps as hgenerator ih =>
    rcases List.mem_cons.1 h with h | h
    · simp at h
    · exact (ih h).cons_parameter q
  | case3 q ps hvisible a as bound ih =>
    rcases List.mem_cons.1 h with h | h
    · unfold bound at h
      split at h
      next hblank =>
        obtain ⟨hkind, rfl, rfl⟩ := Parameter.eq_of_parsed_eq_argument h
        rw [Bool.and_eq_true] at hblank
        refine .standIn List.mem_cons_self (by simpa using hvisible) hkind ?_
        rw [if_pos hblank.1, String.ofList_toList]
      next =>
        obtain ⟨hkind, rfl, rfl⟩ := Parameter.eq_of_parsed_eq_argument h
        exact .written List.mem_cons_self rfl
    · exact ((ih h).cons_parameter q).cons_written a
  | case4 q ps hvisible text ih =>
    rcases List.mem_cons.1 h with h | h
    · obtain ⟨hkind, rfl, rfl⟩ := Parameter.eq_of_parsed_eq_argument h
      refine .standIn List.mem_cons_self (by simpa using hvisible) hkind ?_
      unfold text
      split
      · exact String.ofList_toList
      · rfl
    · exact (ih h).cons_parameter q

/-- A call in the text: a name without parenthesis, then the list with the written arguments in
it. -/
structure Call.Place (text : List Char) (c : Call Origin) (signature : Signature) (name : List Char)
    (written : List RawArgument) : Prop where
  open_not_mem : '(' ∉ name
  exists_body : ∃ body past, RestAt text c.span.start (name ++ '(' :: body ++ ')' :: past) ∧
    c.span.stop = c.span.start + width (name ++ '(' :: body ++ [')']) ∧
    ∀ a ∈ written, ∃ front back, body = front ++ a.text ++ back ∧
      a.start = c.span.start + width (name ++ '(' :: front)
  arguments_eq : c.arguments =
    Binding.place ⟨c.span.start + width name, c.span.start + width name + 1⟩
      signature.parameters written

/-- All that planning a call takes. -/
theorem CallSite.eq_of_plan {s : CallSite} {r : Resolution} {c : Call Origin} {list : ArgumentList}
    (h : s.plan r = .ok (c, list)) :
    s.arguments = some list ∧ c.target = r.target ∧ c.function = r.function ∧
      c.arguments =
        Binding.place ⟨list.openAt, list.openAt + 1⟩ r.signature.parameters list.arguments ∧
      c.span = ⟨s.start, list.closeAt + 1⟩ := by
  unfold plan at h
  split at h
  · simp at h
  next list' hlist =>
    split at h
    · simp at h
    next arguments hbind =>
      obtain ⟨rfl, rfl⟩ := Prod.mk.inj (Except.ok.inj h)
      unfold Binding.bind at hbind
      dsimp only at hbind
      split at hbind
      · simp at hbind
      · exact ⟨hlist, rfl, rfl, (Except.ok.inj hbind).symm, rfl⟩

/-- A call of a scan stands in the text. -/
theorem Parser.Reads.exists_place {p : Parser} {kind : ValueKind} {text : List Char}
    {c : Call Origin} {signature : Signature} (h : p.Reads kind text (.call c signature)) :
    ∃ name written, c.Place text signature name written := by
  cases h with
  | @call cursor rest cut site r _ list hrest hcut hmark hread hwell hfind hplan =>
    have hlayout : site.Layout cursor rest := by
      rw [← nextMark?_eq hcut]
      exact CallSite.layout_of_read hmark hread
    obtain ⟨hlist, -, -, harguments, hspan⟩ := CallSite.eq_of_plan hplan
    obtain ⟨hplace, gap, hgap, hopenAt, past, hname⟩ := hlayout.place hrest hlist
    obtain ⟨body, hbody, hclose, hwritten⟩ := hplace.exists_body
    have hparens : Char.utf8Size '(' = 1 ∧ Char.utf8Size ')' = 1 := ⟨rfl, rfl⟩
    have hstart : c.span.start = site.start := by rw [hspan]
    refine ⟨site.written ++ gap, list.arguments, ?_, ⟨body, list.rest, ?_, ?_, ?_⟩, ?_⟩
    · intro hopen
      rcases List.mem_append.1 hopen with hopen | hopen
      · exact CallSite.open_not_mem_written hread hopen
      · exact absurd (hgap '(' hopen) (by decide)
    · -- The two rests from the opening parenthesis on are one.
      obtain ⟨front, htext, hfront⟩ := hname
      obtain ⟨front', htext', hfront'⟩ := hbody
      have hcut : cutWidth? list.openAt text =
          some (front ++ (site.written ++ gap), '(' :: past) := by
        rw [htext, ← List.append_assoc, ← cutWidth?_append, width_append, hfront, hopenAt]
      have hcut' : cutWidth? list.openAt text = some (front', '(' :: body ++ ')' :: list.rest) := by
        rw [htext', ← hfront', cutWidth?_append]
      obtain ⟨-, hpast⟩ := Prod.mk.inj (Option.some.inj (hcut.symm.trans hcut'))
      refine ⟨front, ?_, by rw [hstart, hfront]⟩
      rw [htext, hpast, List.append_assoc (site.written ++ gap)]
    · simp only [hspan, width_append, width_cons, width_nil, hparens] at hopenAt ⊢
      omega
    · intro a ha
      obtain ⟨front, back, hfront, hastart⟩ := hwritten a ha
      refine ⟨front, back, hfront, ?_⟩
      simp only [hstart, width_append, width_cons, hparens] at hopenAt ⊢
      omega
    · rw [harguments, hstart, ← hopenAt]

namespace Call.Place

variable {text : List Char} {c : Call Origin} {signature : Signature} {name : List Char}
  {written : List RawArgument}

/-- What is written for a call ends with its closing parenthesis. -/
theorem slice? (h : c.Place text signature name written) :
    ∃ body, c.span.slice? text = some (body ++ [')']) := by
  obtain ⟨body, past, hrest, hstop, -⟩ := h.exists_body
  refine ⟨name ++ '(' :: body, ?_⟩
  have hslice :=
    RestAt.slice? (l := name ++ '(' :: body ++ [')']) (r := past) (by simpa using hrest)
  rwa [← hstop] at hslice

theorem openAt_slice? (h : c.Place text signature name written) :
    Span.slice? ⟨c.span.start + width name, c.span.start + width name + 1⟩ text =
      some ['('] := by
  obtain ⟨body, past, hrest, -⟩ := h.exists_body
  have hopen : RestAt text c.span.start (name ++ ('(' :: (body ++ ')' :: past))) := by
    simpa using hrest
  exact RestAt.slice? (l := ['(']) hopen.advance

theorem restAt_written (h : c.Place text signature name written) {a : RawArgument}
    (ha : a ∈ written) :
    ∃ past, RestAt text a.start (a.text ++ past) := by
  obtain ⟨body, past, hrest, -, hwritten⟩ := h.exists_body
  obtain ⟨front, back, rfl, hstart⟩ := hwritten a ha
  refine ⟨back ++ ')' :: past, ?_⟩
  have hrest' : RestAt text c.span.start
      ((name ++ '(' :: front) ++ (a.text ++ (back ++ ')' :: past))) := by simpa using hrest
  rw [hstart]
  exact hrest'.advance

theorem within_written (h : c.Place text signature name written) {a : RawArgument}
    (ha : a ∈ written) :
    c.span.start + width name < a.start ∧ a.start + width a.text < c.span.stop := by
  obtain ⟨body, past, -, hstop, hwritten⟩ := h.exists_body
  obtain ⟨front, back, rfl, hstart⟩ := hwritten a ha
  have hparens : Char.utf8Size '(' = 1 ∧ Char.utf8Size ')' = 1 := ⟨rfl, rfl⟩
  simp only [width_append, width_cons, width_nil, hparens] at hstart hstop
  omega

theorem supplied (h : c.Place text signature name written) {kind : ValueKind} {source : String}
    {o : Origin} (ha : .parsed kind source o ∈ c.arguments) :
    Argument.Supplied ⟨c.span.start + width name, c.span.start + width name + 1⟩
      signature.parameters written kind source o := by
  rw [h.arguments_eq] at ha
  exact Binding.supplied_of_mem_place ha

end Call.Place

end SceneExpr
