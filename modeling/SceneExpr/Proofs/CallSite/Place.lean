import SceneExpr.Proofs.CallSite.Layout
import SceneExpr.Proofs.Text.Rest

namespace SceneExpr

/-- Each of the pieces placed stands where it is placed. -/
theorem RawArgument.exists_of_mem_place {start : Nat} {first : List Char} {more : List (List Char)}
    {a : RawArgument} (h : a ∈ place start (first :: more)) :
    ∃ front back, (first ++ more.flatMap fun piece => ',' :: piece) = front ++ a.text ++ back ∧
      a.start = start + width front := by
  induction more generalizing start first with
  | nil =>
    obtain rfl : a = ⟨first, start⟩ := by simpa [place] using h
    exact ⟨[], [], by simp, rfl⟩
  | cons second more ih =>
    rw [place] at h
    rcases List.mem_cons.1 h with rfl | h
    · exact ⟨[], (second :: more).flatMap fun piece => ',' :: piece, by simp, rfl⟩
    · obtain ⟨front, back, hbody, hstart⟩ := ih h
      have hcomma : Char.utf8Size ',' = 1 := rfl
      refine ⟨first ++ ',' :: front, back, ?_, ?_⟩
      · rw [List.flatMap_cons, List.cons_append, hbody]
        simp
      · simp only [width_append, width_cons, hcomma]
        omega

/-- A list in the text, in front of `past`, with the arguments where they stand. -/
structure ArgumentList.Place (text : List Char) (list : ArgumentList) : Prop where
  exists_body : ∃ body, RestAt text list.openAt ('(' :: body ++ ')' :: list.rest) ∧
    list.closeAt = list.openAt + 1 + width body ∧
    ∀ a ∈ list.arguments, ∃ front back, body = front ++ a.text ++ back ∧
      a.start = list.openAt + 1 + width front

namespace ArgumentList

variable {function inner text : List Char} {openAt : Nat} {list : ArgumentList}

theorem place_of_read (hopen : RestAt text openAt ('(' :: inner))
    (h : read function openAt inner = .ok list) : list.Place text := by
  unfold read at h
  split at h
  · simp at h
  next p hp =>
    obtain rfl := Except.ok.inj h
    have hinner : p.body ++ ')' :: p.rest = inner := by
      rw [← Pieces.text_eq, Pieces.text_divide? hp]
    refine ⟨p.body, ?_, ?_, ?_⟩
    · rw [← hinner] at hopen
      simpa using hopen
    · dsimp only
      rw [Pieces.separatedWidth_toList]
      omega
    · intro a ha
      exact RawArgument.exists_of_mem_place (RawArgument.mem_of_mem_dropBlankLast ha)

theorem span_of_read_error {e : ParseError} (h : read function openAt inner = .error e) :
    e.span = ⟨openAt, openAt + 1⟩ := by
  unfold read at h
  split at h
  · obtain rfl := Except.error.inj h
    rfl
  · simp at h

namespace Place

theorem openAt_slice? (h : list.Place text) :
    Span.slice? ⟨list.openAt, list.openAt + 1⟩ text = some ['('] := by
  obtain ⟨body, hrest, -, -⟩ := h.exists_body
  exact RestAt.slice? (l := ['(']) (by simpa using hrest)

end Place

end ArgumentList

namespace CallSite

variable {cursor : Nat} {rest text : List Char} {cut : MarkedCut} {s : CallSite}

theorem open_not_mem_lastIdentifier (before : List Char) : '(' ∉ lastIdentifier before := by
  intro h
  exact absurd (not_isSeparator_of_mem_lastIdentifier h) (by decide)

theorem open_not_mem_member (after : List Char) :
    '(' ∉ after.takeWhile fun c => !endsMember c := by
  intro h
  have := List.all_eq_true.1 List.all_takeWhile '(' h
  exact absurd this (by decide)

theorem open_not_mem_written (h : read cursor cut = .ok s) : '(' ∉ s.written := by
  unfold read at h
  split at h
  · obtain ⟨found, rfl, -⟩ := exists_of_atDot h
    simp [written, bareAtDot, open_not_mem_lastIdentifier, open_not_mem_member]
  · rw [atParen_eq] at h
    obtain ⟨list, -, rfl⟩ := exists_of_map_ok h
    exact open_not_mem_lastIdentifier cut.before

namespace Layout

theorem restAt_passed (h : s.Layout cursor rest) (hrest : RestAt text cursor rest) :
    RestAt text s.start (s.passed ++ s.rest) := by
  rw [h.start_eq]
  rw [h.text_eq, List.append_assoc] at hrest
  exact hrest.advance

theorem restAt_written (h : s.Layout cursor rest) (hrest : RestAt text cursor rest) :
    ∃ past, RestAt text s.start (s.written ++ past) := by
  have hstart := h.restAt_passed hrest
  unfold passed at hstart
  unfold written
  split at hstart
  next howner =>
    exact ⟨'(' :: s.rest, by simpa using hstart⟩
  next owner howner =>
    simp only [written, howner] at hstart ⊢
    exact ⟨s.rest, hstart⟩

theorem nameSpan_slice? (h : s.Layout cursor rest) (hrest : RestAt text cursor rest) :
    s.nameSpan.slice? text = some s.written := by
  obtain ⟨past, hstart⟩ := h.restAt_written hrest
  rw [nameSpan, memberSpan_stop]
  exact hstart.slice?

theorem memberSpan_slice? (h : s.Layout cursor rest) (hrest : RestAt text cursor rest) :
    s.memberSpan.slice? text = some s.member := by
  obtain ⟨past, hstart⟩ := h.restAt_written hrest
  have hdot : Char.utf8Size '.' = 1 := rfl
  unfold written at hstart
  unfold memberSpan memberStart
  split at hstart
  next howner =>
    exact hstart.slice?
  next owner howner =>
    have hmember : RestAt text s.start ((owner ++ ['.']) ++ (s.member ++ past)) := by
      simpa using hstart
    have hmember := hmember.advance
    rw [width_append, width_cons, width_nil, hdot, ← Nat.add_assoc] at hmember
    exact hmember.slice?

/-- The list of a site stands behind its name, and blanks apart there is nothing in between. -/
theorem place (h : s.Layout cursor rest) (hrest : RestAt text cursor rest) {list : ArgumentList}
    (hlist : s.arguments = some list) : list.Place text ∧
      ∃ gap, (∀ c ∈ gap, isAsciiBlank c = true) ∧
        list.openAt = s.start + width (s.written ++ gap) ∧
        ∃ past, RestAt text s.start (s.written ++ gap ++ '(' :: past) := by
  obtain ⟨gap, inner, htext, hgap, hread⟩ := h.list_eq list hlist
  rw [htext, List.append_assoc, List.append_assoc] at hrest
  have hname := hrest.advance
  rw [← h.start_eq] at hname
  have hopen := hname.advance.advance
  have hopenAt := ArgumentList.openAt_of_read hread
  refine ⟨ArgumentList.place_of_read hopen hread, gap, hgap, ?_, inner, by simpa using hname⟩
  rw [hopenAt, width_append, Nat.add_assoc]

end Layout

/-- Where the candidate of a dot stands. -/
theorem restAt_bareAtDot {before after : List Char}
    (h : RestAt text cursor (before ++ '.' :: after)) :
    RestAt text (bareAtDot cursor before after).start
      ((bareAtDot cursor before after).written ++ (bareAtDot cursor before after).rest) := by
  rw [bareAtDot_text cursor, List.append_assoc] at h
  exact h.advance

/-- A site that cannot be read has an opening parenthesis to be blamed. -/
theorem slice?_of_read_error {e : ParseError} (hmark : cut.mark ≠ .quote)
    (hrest : RestAt text cursor (cut.before ++ cut.mark.char :: cut.after))
    (h : read cursor cut = .error e) : e.span.slice? text = some ['('] := by
  have hat {n : Nat} {past : List Char} (hopen : RestAt text n ('(' :: past)) :
      Span.slice? ⟨n, n + 1⟩ text = some ['('] := RestAt.slice? (l := ['(']) hopen
  unfold read at h
  cases hcut : cut.mark with
  | quote => exact absurd hcut hmark
  | paren =>
    rw [hcut] at h hrest
    rw [atParen_eq] at h
    rw [ArgumentList.span_of_read_error (error_of_map_error h)]
    exact hat hrest.advance
  | dot =>
    rw [hcut] at h hrest
    simp only [atDot_eq] at h
    split at h
    next =>
      have hlist := error_of_map_error h
      by_cases hopen : ∃ inner,
          (bareAtDot cursor cut.before cut.after).rest.dropWhile isAsciiBlank = '(' :: inner
      · obtain ⟨inner, hinner⟩ := hopen
        rw [listAfter_of_open hinner, memberSpan_stop] at hlist
        rw [ArgumentList.span_of_read_error (error_of_map_error hlist)]
        -- The name, what is left behind it, and the blanks in front of the parenthesis.
        have hbare := restAt_bareAtDot hrest
        rw [← List.takeWhile_append_dropWhile (p := isAsciiBlank)
          (l := (bareAtDot cursor cut.before cut.after).rest), hinner] at hbare
        exact hat hbare.advance.advance
      · rw [listAfter_of_not_open fun inner hinner => hopen ⟨inner, hinner⟩] at hlist
        simp at hlist
    next => simp at h

/-- What is wrong with the call of a site is its member or its opening parenthesis. -/
theorem within_of_plan_error {r : Resolution} {e : ParseError} (hs : s.Layout cursor rest)
    (hrest : RestAt text cursor rest) (h : s.plan r = .error e) :
    ∃ piece, e.span.slice? text = some piece := by
  unfold plan at h
  split at h
  · obtain rfl := Except.error.inj h
    exact ⟨s.member, hs.memberSpan_slice? hrest⟩
  next list hlist =>
    obtain ⟨hplace, -⟩ := hs.place hrest hlist
    split at h
    next hbind =>
      obtain rfl := Except.error.inj h
      unfold Binding.bind at hbind
      dsimp only at hbind
      split at hbind
      · obtain rfl := Except.error.inj hbind
        exact ⟨['('], hplace.openAt_slice?⟩
      · simp at hbind
    · simp at h

end CallSite

end SceneExpr
