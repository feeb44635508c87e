import SceneExpr.Scan

namespace SceneExpr

theorem exists_of_map_ok {ε α β : Type} {f : α → β} {r : Except ε α} {b : β}
    (h : r.map f = .ok b) :
    ∃ a, r = .ok a ∧ f a = b := by
  cases r with
  | ok a => exact ⟨a, rfl, Except.ok.inj h⟩
  | error e => cases h

theorem error_of_map_error {ε α β : Type} {f : α → β} {r : Except ε α} {e : ε}
    (h : r.map f = .error e) : r = .error e := by
  cases r with
  | ok a => cases h
  | error e' => exact congrArg Except.error (Except.error.inj h)

/-- A text is cut at its first character that is a mark. -/
theorem nextMark?_eq_some_iff {kind : ValueKind} {cs : List Char} {cut : MarkedCut} :
    nextMark? kind cs = some cut ↔ (∀ c ∈ cut.before, Mark.ofChar? kind c = none) ∧
      Mark.ofChar? kind cut.mark.char = some cut.mark ∧
      cs = cut.before ++ cut.mark.char :: cut.after := by
  obtain ⟨before, mark, after⟩ := cut
  dsimp only
  induction cs generalizing before with
  | nil => simp [nextMark?]
  | cons c cs ih =>
    rw [nextMark?]
    cases hc : Mark.ofChar? kind c with
    | some m =>
      have hchar := Mark.char_of_ofChar? hc
      dsimp only
      constructor
      · intro h
        obtain ⟨rfl, rfl, rfl⟩ := MarkedCut.mk.inj (Option.some.inj h)
        exact ⟨by simp, by rw [hchar, hc], by rw [hchar, List.nil_append]⟩
      · rintro ⟨hbefore, hmark, heq⟩
        cases before with
        | nil =>
          obtain ⟨rfl, rfl⟩ := List.cons.inj heq
          rw [Option.some.inj (hc.symm.trans hmark)]
        | cons b before =>
          obtain ⟨rfl, rfl⟩ := List.cons.inj heq
          rw [hbefore c List.mem_cons_self] at hc
          cases hc
    | none =>
      dsimp only
      constructor
      · intro h
        obtain ⟨cut', hcut, heq⟩ := Option.map_eq_some_iff.1 h
        obtain ⟨rfl, rfl, rfl⟩ := MarkedCut.mk.inj heq
        obtain ⟨hbefore, hmark, hcs⟩ := (ih _).1 hcut
        exact ⟨List.forall_mem_cons.2 ⟨hc, hbefore⟩, hmark, congrArg (c :: ·) hcs⟩
      · rintro ⟨hbefore, hmark, heq⟩
        cases before with
        | nil =>
          obtain ⟨rfl, rfl⟩ := List.cons.inj heq
          rw [hc] at hmark
          cases hmark
        | cons b before =>
          obtain ⟨rfl, hcs⟩ := List.cons.inj heq
          rw [(ih before).2 ⟨(List.forall_mem_cons.1 hbefore).2, hmark, hcs⟩, Option.map_some]

theorem nextMark?_eq_none_iff {kind : ValueKind} {cs : List Char} :
    nextMark? kind cs = none ↔ ∀ c ∈ cs, Mark.ofChar? kind c = none := by
  induction cs with
  | nil => simp [nextMark?]
  | cons c cs ih =>
    rw [nextMark?, List.forall_mem_cons]
    cases hc : Mark.ofChar? kind c with
    | some m => simp
    | none => simp [ih]

namespace Pieces

def body (p : Pieces) : List Char := p.first ++ p.more.flatMap fun piece => ',' :: piece

theorem text_eq (p : Pieces) : p.text = p.body ++ ')' :: p.rest := by
  simp [text, body]

theorem separatedWidth_eq (pieces : List (List Char)) :
    separatedWidth pieces = width (pieces.flatMap fun piece => ',' :: piece) := by
  have hcomma : Char.utf8Size ',' = 1 := rfl
  induction pieces with
  | nil => rfl
  | cons piece pieces ih =>
    simp only [separatedWidth, List.flatMap_cons, width_append, width_cons, ih, hcomma]
    omega

theorem separatedWidth_toList (p : Pieces) : separatedWidth p.toList = width p.body + 1 := by
  rw [toList, separatedWidth, separatedWidth_eq, body, width_append]
  omega

end Pieces

namespace RawArgument

theorem le_start_of_mem_place {start : Nat} {texts : List (List Char)} {a : RawArgument}
    (h : a ∈ place start texts) : start ≤ a.start := by
  induction texts generalizing start with
  | nil => simp [place] at h
  | cons text texts ih =>
    rcases List.mem_cons.1 h with rfl | h
    · exact Nat.le_refl _
    · have := ih h
      omega

theorem mem_of_mem_dropBlankLast {as : List RawArgument} {a : RawArgument}
    (h : a ∈ dropBlankLast as) : a ∈ as := by
  unfold dropBlankLast at h
  split at h
  · exact List.dropLast_subset as h
  · exact h

end RawArgument

namespace ArgumentList

variable {function inner : List Char} {openAt : Nat} {list : ArgumentList}

theorem openAt_of_read (h : read function openAt inner = .ok list) : list.openAt = openAt := by
  unfold read at h
  split at h
  · simp at h
  · obtain rfl := Except.ok.inj h
    rfl

/-- A list ends at its closing parenthesis. -/
theorem layout_of_read (h : read function openAt inner = .ok list) :
    ∃ body, inner = body ++ ')' :: list.rest ∧ list.closeAt = openAt + 1 + width body := by
  unfold read at h
  split at h
  · simp at h
  next p hp =>
    obtain rfl := Except.ok.inj h
    refine ⟨p.body, ?_, ?_⟩
    · rw [← Pieces.text_eq, Pieces.text_divide? hp]
    · dsimp only
      rw [Pieces.separatedWidth_toList]
      omega

theorem openAt_lt_start_of_read (h : read function openAt inner = .ok list) {a : RawArgument}
    (ha : a ∈ list.arguments) : openAt < a.start := by
  unfold read at h
  split at h
  · simp at h
  next p hp =>
    obtain rfl := Except.ok.inj h
    exact RawArgument.le_start_of_mem_place (RawArgument.mem_of_mem_dropBlankLast ha)

theorem start_of_read_error {e : ParseError} (h : read function openAt inner = .error e) :
    e.span.start = openAt := by
  unfold read at h
  split at h
  · obtain rfl := Except.error.inj h
    rfl
  · simp at h

end ArgumentList

/-- The character in front of an identifier is a separator. -/
theorem isSeparator_of_beforeIdentifier {before front : List Char} {c : Char}
    (h : beforeIdentifier before = front.concat c) : isSeparator c = true := by
  have hdrop : before.reverse.dropWhile (fun c => !isSeparator c) = c :: front.reverse := by
    rw [← List.reverse_inj, List.reverse_cons, List.reverse_reverse,
      ← List.concat_eq_append, ← h]
    rfl
  have hhead := List.head?_dropWhile_not (fun c => !isSeparator c) before.reverse
  rw [hdrop] at hhead
  simpa using hhead

namespace CallSite

/-- The candidate of a dot, before a list is looked for. -/
def bareAtDot (cursor : Nat) (before after : List Char) : CallSite where
  lead := beforeIdentifier before
  start := cursor + width (beforeIdentifier before)
  owner := some (lastIdentifier before)
  member := after.takeWhile fun c => !endsMember c
  arguments := none
  rest := after.dropWhile fun c => !endsMember c

/-- The candidate of a dot leaves out nothing. -/
theorem bareAtDot_text (cursor : Nat) (before after : List Char) :
    before ++ '.' :: after = (bareAtDot cursor before after).lead ++
      (bareAtDot cursor before after).written ++ (bareAtDot cursor before after).rest := by
  have hbefore := beforeIdentifier_append_lastIdentifier before
  have hafter : after.takeWhile (fun c => !endsMember c) ++
    after.dropWhile (fun c => !endsMember c) = after := List.takeWhile_append_dropWhile
  calc before ++ '.' :: after
      = (beforeIdentifier before ++ lastIdentifier before) ++ '.' ::
        (after.takeWhile (fun c => !endsMember c) ++ after.dropWhile fun c => !endsMember c) := by
        rw [hbefore, hafter]
    _ = _ := by simp [bareAtDot, written]

theorem atDot_eq (cursor : Nat) (before after : List Char) :
    atDot cursor before after =
      if (bareAtDot cursor before after).isWellFormed then
        (bareAtDot cursor before after).listAfter.map fun found =>
          { bareAtDot cursor before after with arguments := found }
      else .ok (bareAtDot cursor before after) := by
  change (if (bareAtDot cursor before after).isWellFormed then _ else _) = _
  split
  · exact bind_pure_comp _ _
  · rfl

def withList (cursor : Nat) (before after : List Char) (list : ArgumentList) : CallSite where
  lead := beforeIdentifier before
  start := cursor + width (beforeIdentifier before)
  owner := none
  member := lastIdentifier before
  arguments := some list
  rest := after

theorem atParen_eq (cursor : Nat) (before after : List Char) :
    atParen cursor before after =
      (ArgumentList.read (lastIdentifier before) (cursor + width before) after).map
        (withList cursor before after) :=
  bind_pure_comp _ _

theorem listAfter_of_open {s : CallSite} {inner : List Char}
    (h : s.rest.dropWhile isAsciiBlank = '(' :: inner) :
    s.listAfter = (ArgumentList.read s.written
      (s.memberSpan.stop + width (s.rest.takeWhile isAsciiBlank)) inner).map some := by
  unfold listAfter
  rw [h]
  rfl

theorem listAfter_of_not_open {s : CallSite}
    (h : ∀ inner, s.rest.dropWhile isAsciiBlank ≠ '(' :: inner) : s.listAfter = .ok none := by
  unfold listAfter
  split
  next inner heq => exact absurd heq (h inner)
  next => rfl

/-- All that reading a dot takes. -/
theorem exists_of_atDot {cursor : Nat} {before after : List Char} {s : CallSite}
    (h : atDot cursor before after = .ok s) :
    ∃ found, s = { bareAtDot cursor before after with arguments := found } ∧
      ((bareAtDot cursor before after).isWellFormed = true ∧
          (bareAtDot cursor before after).listAfter = .ok found ∨
        ¬(bareAtDot cursor before after).isWellFormed = true ∧ found = none) := by
  rw [atDot_eq] at h
  split at h
  next hwell =>
    obtain ⟨found, hfound, rfl⟩ := exists_of_map_ok h
    exact ⟨found, rfl, .inl ⟨hwell, hfound⟩⟩
  next hwell =>
    obtain rfl := Except.ok.inj h
    exact ⟨none, rfl, .inr ⟨hwell, rfl⟩⟩

theorem memberSpan_stop (s : CallSite) : s.memberSpan.stop = s.start + width s.written := by
  have hdot : Char.utf8Size '.' = 1 := rfl
  unfold memberSpan memberStart written
  cases s.owner with
  | none => rfl
  | some owner =>
    simp only [width_append, width_cons, hdot]
    omega

theorem start_le_memberSpan_start (s : CallSite) : s.start ≤ s.memberSpan.start := by
  unfold memberSpan memberStart
  cases s.owner with
  | none => exact Nat.le_refl _
  | some owner =>
    dsimp only
    omega

/-- The list follows the written name, with nothing but blanks in between. -/
def ListLayout (s : CallSite) (rest : List Char) (list : ArgumentList) : Prop :=
  ∃ gap inner, rest = s.lead ++ s.written ++ gap ++ '(' :: inner ∧
    (∀ c ∈ gap, isAsciiBlank c = true) ∧
    ArgumentList.read s.written (s.start + width s.written + width gap) inner = .ok list

/-- What a site says about the text from the cursor on. -/
structure Layout (cursor : Nat) (rest : List Char) (s : CallSite) : Prop where
  start_eq : s.start = cursor + width s.lead
  text_eq : rest = s.lead ++ s.passed ++ s.rest
  list_eq : ∀ list, s.arguments = some list → s.ListLayout rest list

theorem Layout.exists_body {cursor : Nat} {rest : List Char} {s : CallSite} {list : ArgumentList}
    (h : s.Layout cursor rest) (hlist : s.arguments = some list) :
    ∃ body, rest = s.lead ++ body ++ list.rest ∧ list.closeAt + 1 = s.start + width body ∧
      s.start ≤ list.openAt ∧ ∀ a ∈ list.arguments, s.start ≤ a.start := by
  obtain ⟨gap, inner, hrest, -, hread⟩ := h.list_eq list hlist
  obtain ⟨body, hinner, hclose⟩ := ArgumentList.layout_of_read hread
  have hopen := ArgumentList.openAt_of_read hread
  have hparens : Char.utf8Size '(' = 1 ∧ Char.utf8Size ')' = 1 := ⟨rfl, rfl⟩
  -- The written name, the blanks behind it, and the list with both parentheses.
  refine ⟨s.written ++ gap ++ '(' :: body ++ [')'], by simp [hrest, hinner], ?_, by omega, ?_⟩
  · simp only [width_append, width_cons, width_nil, hparens]
    omega
  · intro a ha
    have := ArgumentList.openAt_lt_start_of_read hread ha
    omega

theorem layout_atParen {cursor : Nat} {before after : List Char} {s : CallSite}
    (h : atParen cursor before after = .ok s) : s.Layout cursor (before ++ '(' :: after) := by
  rw [atParen_eq] at h
  obtain ⟨list, hread, rfl⟩ := exists_of_map_ok h
  have hbefore := beforeIdentifier_append_lastIdentifier before
  have hwidth := congrArg width hbefore
  rw [width_append] at hwidth
  refine ⟨rfl, ?_, ?_⟩
  · simp only [withList, passed, ← List.append_assoc, hbefore]
    simp
  · intro list' hlist
    obtain rfl := Option.some.inj hlist
    refine ⟨[], after, by simp [withList, written, hbefore], by simp, ?_⟩
    simpa only [withList, written, width_nil, Nat.add_zero, Nat.add_assoc, hwidth] using hread

theorem layout_listAfter {s : CallSite} {list : ArgumentList} (h : s.listAfter = .ok (some list)) :
    ∃ gap inner, s.rest = gap ++ '(' :: inner ∧ (∀ c ∈ gap, isAsciiBlank c = true) ∧
      ArgumentList.read s.written (s.start + width s.written + width gap) inner = .ok list := by
  by_cases hopen : ∃ inner, s.rest.dropWhile isAsciiBlank = '(' :: inner
  · obtain ⟨inner, hinner⟩ := hopen
    rw [listAfter_of_open hinner, memberSpan_stop] at h
    obtain ⟨list', hread, hlist⟩ := exists_of_map_ok h
    obtain rfl := Option.some.inj hlist
    refine ⟨s.rest.takeWhile isAsciiBlank, inner, ?_, ?_, hread⟩
    · rw [← hinner, List.takeWhile_append_dropWhile]
    · intro c hc
      exact List.all_eq_true.1 List.all_takeWhile c hc
  · rw [listAfter_of_not_open fun inner hinner => hopen ⟨inner, hinner⟩] at h
    simp at h

theorem layout_atDot {cursor : Nat} {before after : List Char} {s : CallSite}
    (h : atDot cursor before after = .ok s) : s.Layout cursor (before ++ '.' :: after) := by
  have htext := bareAtDot_text cursor before after
  obtain ⟨found, rfl, hfound⟩ := exists_of_atDot h
  refine ⟨rfl, htext, ?_⟩
  rintro list rfl
  rcases hfound with ⟨-, hlist⟩ | ⟨-, hnone⟩
  · obtain ⟨gap, inner, hrest, hgap, hread⟩ := layout_listAfter hlist
    refine ⟨gap, inner, ?_, hgap, hread⟩
    rw [htext, hrest, ← List.append_assoc]
    rfl
  · cases hnone

theorem layout_of_read {cursor : Nat} {cut : MarkedCut} {s : CallSite} (hmark : cut.mark ≠ .quote)
    (h : read cursor cut = .ok s) :
    s.Layout cursor (cut.before ++ cut.mark.char :: cut.after) := by
  unfold read at h
  cases hcut : cut.mark with
  | dot =>
    rw [hcut] at h
    exact layout_atDot h
  | paren =>
    rw [hcut] at h
    exact layout_atParen h
  | quote => exact absurd hcut hmark

theorem lead_of_read {cursor : Nat} {cut : MarkedCut} {s : CallSite} (h : read cursor cut = .ok s) :
    s.lead = beforeIdentifier cut.before := by
  unfold read at h
  split at h
  · obtain ⟨found, rfl, -⟩ := exists_of_atDot h
    rfl
  · rw [atParen_eq] at h
    obtain ⟨list, -, rfl⟩ := exists_of_map_ok h
    rfl

theorem le_start_of_listAfter_error {s : CallSite} {e : ParseError} (h : s.listAfter = .error e) :
    s.memberSpan.stop ≤ e.span.start := by
  by_cases hopen : ∃ inner, s.rest.dropWhile isAsciiBlank = '(' :: inner
  · obtain ⟨inner, hinner⟩ := hopen
    rw [listAfter_of_open hinner] at h
    rw [ArgumentList.start_of_read_error (error_of_map_error h)]
    exact Nat.le_add_right _ _
  · rw [listAfter_of_not_open fun inner hinner => hopen ⟨inner, hinner⟩] at h
    simp at h

theorem start_of_read_error {cursor : Nat} {cut : MarkedCut} {e : ParseError}
    (h : read cursor cut = .error e) :
    cursor + width (beforeIdentifier cut.before) ≤ e.span.start := by
  unfold read at h
  split at h
  · rw [atDot_eq] at h
    split at h
    · have hle := le_start_of_listAfter_error (error_of_map_error h)
      rw [memberSpan_stop] at hle
      exact Nat.le_trans (Nat.le_add_right _ _) hle
    · simp at h
  · have hbefore := congrArg width (beforeIdentifier_append_lastIdentifier cut.before)
    rw [width_append] at hbefore
    rw [atParen_eq] at h
    rw [ArgumentList.start_of_read_error (error_of_map_error h)]
    omega

end CallSite

/-- The first octet that an error of the origin can be reported at. -/
def Origin.start : Origin → Nat
  | .written start => start
  | .standIn list => list.start

theorem Origin.start_le_locate (o : Origin) (e : ParseError) :
    o.start ≤ (o.locate e).span.start := by
  cases o with
  | written start => exact Nat.le_add_left _ _
  | standIn list => exact Nat.le_refl _

def Call.Raises (c : Call Origin) (e : ParseError) : Prop :=
  ∃ kind source origin inner, .parsed kind source origin ∈ c.arguments ∧
    e = Origin.locate origin inner

namespace Binding

theorem mem_argument {p : Parameter} {text : List Char} {origin o : Origin} {kind : ValueKind}
    {source : String} (h : .parsed kind source o = p.argument text origin) : o = origin := by
  unfold Parameter.argument at h
  split at h
  · exact (Argument.parsed.inj h).2.2
  · simp at h

/-- Arguments come from where the list and its pieces stand. -/
theorem le_start_of_mem_place {list : Span} {ps : List Parameter} {as : List RawArgument} {n : Nat}
    (hlist : n ≤ list.start) (has : ∀ a ∈ as, n ≤ a.start) {kind : ValueKind}
    {source : String} {o : Origin} (h : .parsed kind source o ∈ place list ps as) :
    n ≤ o.start := by
  fun_induction place list ps as with
  | case1 => simp at h
  | case2 p ps as _ ih =>
    rcases List.mem_cons.1 h with h | h
    · simp at h
    · exact ih has h
  | case3 p ps _ a as bound ih =>
    rcases List.mem_cons.1 h with h | h
    · have ha := has a List.mem_cons_self
      unfold bound at h
      split at h
      · rw [mem_argument h]
        exact hlist
      · rw [mem_argument h]
        exact ha
    · exact ih (fun b hb => has b (List.mem_cons_of_mem a hb)) h
  | case4 p ps _ text ih =>
    rcases List.mem_cons.1 h with h | h
    · rw [mem_argument h]
      exact hlist
    · exact ih has h

end Binding

namespace CallSite

variable {cursor : Nat} {rest : List Char} {s : CallSite} {r : Resolution}

theorem span_of_plan {call : Call Origin} {list : ArgumentList}
    (h : s.plan r = .ok (call, list)) : call.span = ⟨s.start, list.closeAt + 1⟩ := by
  unfold plan at h
  split at h
  · simp at h
  next list' hlist =>
    split at h
    · simp at h
    · obtain ⟨rfl, rfl⟩ := Prod.mk.inj (Except.ok.inj h)
      rfl

theorem start_le_of_plan_error {e : ParseError} (hs : s.Layout cursor rest)
    (h : s.plan r = .error e) : s.start ≤ e.span.start := by
  unfold plan at h
  split at h
  · obtain rfl := Except.error.inj h
    exact s.start_le_memberSpan_start
  next list hlist =>
    obtain ⟨-, -, -, hopen, -⟩ := hs.exists_body hlist
    split at h
    next hbind =>
      obtain rfl := Except.error.inj h
      unfold Binding.bind at hbind
      dsimp only at hbind
      split at hbind
      · obtain rfl := Except.error.inj hbind
        exact hopen
      · simp at hbind
    · simp at h

theorem start_le_of_plan_raises {call : Call Origin} {list : ArgumentList} {e : ParseError}
    (hs : s.Layout cursor rest) (h : s.plan r = .ok (call, list)) (he : call.Raises e) :
    s.start ≤ e.span.start := by
  obtain ⟨kind, source, origin, inner, ha, rfl⟩ := he
  unfold plan at h
  split at h
  · simp at h
  next list' hlist =>
    obtain ⟨-, -, -, hopen, hargs⟩ := hs.exists_body hlist
    split at h
    · simp at h
    next arguments hbind =>
      obtain ⟨rfl, rfl⟩ := Prod.mk.inj (Except.ok.inj h)
      unfold Binding.bind at hbind
      dsimp only at hbind
      split at hbind
      · simp at hbind
      · obtain rfl := Except.ok.inj hbind
        exact Nat.le_trans (Binding.le_start_of_mem_place hopen hargs ha)
          (origin.start_le_locate inner)

end CallSite

end SceneExpr
