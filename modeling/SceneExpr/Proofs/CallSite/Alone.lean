import SceneExpr.Proofs.CallSite.Extend
import SceneExpr.Proofs.CallSite.Shift

namespace SceneExpr

section Identifiers

variable {cs : List Char} (h : ∀ c ∈ cs, isSeparator c = false)

include h

theorem beforeIdentifier_eq_nil : beforeIdentifier cs = [] := by
  unfold beforeIdentifier
  rw [List.dropWhile_eq_nil_iff.2]
  · rfl
  · intro c hc
    simp [h c (List.mem_reverse.1 hc)]

theorem lastIdentifier_eq_self : lastIdentifier cs = cs := by
  rw [← List.nil_append (lastIdentifier cs), ← beforeIdentifier_eq_nil h,
    beforeIdentifier_append_lastIdentifier]

end Identifiers

theorem endsApart_beforeIdentifier {cs : List Char} (h : beforeIdentifier cs ≠ []) :
    EndsApart (beforeIdentifier cs) := by
  rcases List.eq_nil_or_concat (beforeIdentifier cs) with hnil | ⟨front, c, hfront⟩
  · exact absurd hnil h
  · exact ⟨front, c, hfront.trans (List.concat_eq_append ..),
      isSeparator_of_beforeIdentifier hfront⟩

theorem not_endsMember_of_not_isSeparator {c : Char} (h : isSeparator c = false) :
    CallSite.endsMember c = false := by
  obtain ⟨hblank, hseparators⟩ := Bool.or_eq_false_iff.1 h
  have hopen : c ≠ '(' := by
    rintro rfl
    exact absurd hseparators (by decide)
  simp [CallSite.endsMember, hblank, hopen]

namespace CallSite

def dotted (cursor : Nat) (before member gap inner : List Char)
    (list : ArgumentList) : CallSite where
  lead := beforeIdentifier before
  start := cursor + width (beforeIdentifier before)
  owner := some (lastIdentifier before)
  member := member
  arguments := some list
  rest := gap ++ '(' :: inner

variable {cursor : Nat} {before after member gap inner : List Char} {list : ArgumentList}

/-- A member runs up to the blanks and the parenthesis behind it. -/
theorem bareAtDot_of_gap (hmember : ∀ c ∈ member, endsMember c = false)
    (hgap : ∀ c ∈ gap, isAsciiBlank c = true) :
    bareAtDot cursor before (member ++ (gap ++ '(' :: inner)) =
      { dotted cursor before member gap inner list with arguments := none } := by
  have hall : ∀ c ∈ member, (!endsMember c) = true := fun c hc => by rw [hmember c hc]; rfl
  -- Blank or not, the first character behind the member ends it.
  obtain ⟨d, ds, hcons, hd⟩ : ∃ d ds, gap ++ '(' :: inner = d :: ds ∧
      endsMember d = true := by
    cases gap with
    | nil => exact ⟨'(', inner, rfl, rfl⟩
    | cons d gap => exact ⟨d, _, rfl, by simp [endsMember, hgap d List.mem_cons_self]⟩
  have htake : (member ++ d :: ds).takeWhile (fun c => !endsMember c) = member := by
    rw [List.takeWhile_append_of_pos hall, List.takeWhile_cons_of_neg (by simp [hd]),
      List.append_nil]
  have hdrop : (member ++ d :: ds).dropWhile (fun c => !endsMember c) = d :: ds := by
    rw [List.dropWhile_append_of_pos hall, List.dropWhile_cons_of_neg (by simp [hd])]
  rw [bareAtDot, dotted, hcons, htake, hdrop]

theorem listAfter_of_gap {s : CallSite} (hrest : s.rest = gap ++ '(' :: inner)
    (hgap : ∀ c ∈ gap, isAsciiBlank c = true) :
    s.listAfter =
      (ArgumentList.read s.written (s.start + width s.written + width gap) inner).map some := by
  have hopen : ¬isAsciiBlank '(' = true := by decide
  have hdrop : s.rest.dropWhile isAsciiBlank = '(' :: inner := by
    rw [hrest, List.dropWhile_append_of_pos hgap, List.dropWhile_cons_of_neg hopen]
  have htake : s.rest.takeWhile isAsciiBlank = gap := by
    rw [hrest, List.takeWhile_append_of_pos hgap, List.takeWhile_cons_of_neg hopen, List.append_nil]
  rw [listAfter_of_open hdrop, htake, memberSpan_stop]

/-- A dot between two names is the site of a call if a list follows. -/
theorem atDot_of_list (hgap : ∀ c ∈ gap, isAsciiBlank c = true)
    (hwell : (dotted cursor before member gap inner list).isWellFormed = true)
    (hread : ArgumentList.read (dotted cursor before member gap inner list).written
      (cursor + width (beforeIdentifier before) +
        width (dotted cursor before member gap inner list).written + width gap) inner = .ok list) :
    atDot cursor before (member ++ (gap ++ '(' :: inner)) =
      .ok (dotted cursor before member gap inner list) := by
  have hmember : ∀ c ∈ member, endsMember c = false := by
    intro c hc
    apply not_endsMember_of_not_isSeparator
    simp only [isWellFormed, dotted, Bool.and_eq_true, Bool.not_eq_true',
      List.any_eq_false] at hwell
    simpa using hwell.2 c hc
  have hlist :
      CallSite.listAfter { dotted cursor before member gap inner list with arguments := none } =
        .ok (some list) := by
    rw [listAfter_of_gap rfl hgap]
    exact congrArg (Except.map some) hread
  rw [atDot_eq, bareAtDot_of_gap hmember hgap, hlist]
  exact if_pos hwell

theorem exists_dotted {s : CallSite} (h : atDot cursor before after = .ok s)
    (hlist : s.arguments = some list) :
    ∃ member gap inner, after = member ++ (gap ++ '(' :: inner) ∧
      (∀ c ∈ gap, isAsciiBlank c = true) ∧ s = dotted cursor before member gap inner list ∧
      s.isWellFormed = true ∧
      ArgumentList.read s.written (s.start + width s.written + width gap) inner = .ok list := by
  obtain ⟨found, rfl, hfound⟩ := exists_of_atDot h
  obtain rfl : found = some list := hlist
  rcases hfound with ⟨hwell, hafter⟩ | ⟨-, hnone⟩
  · obtain ⟨gap, inner, hrest, hgap, hread⟩ := layout_listAfter hafter
    refine ⟨after.takeWhile fun c => !endsMember c, gap, inner, ?_, hgap, ?_, hwell, hread⟩
    · rw [← hrest, bareAtDot, List.takeWhile_append_dropWhile]
    · rw [dotted, ← hrest]
      rfl
  · cases hnone

/-- A site is read as if what stands in front of its name were not there. -/
theorem read_lead (cursor : Nat) (cut : MarkedCut) :
    read cursor cut =
      (read (cursor + width (beforeIdentifier cut.before))
        { cut with before := lastIdentifier cut.before }).map
          (·.behind (beforeIdentifier cut.before)) := by
  have hbefore := beforeIdentifier_append_lastIdentifier cut.before
  -- Either the name starts the text, or a separator keeps it apart from what stands in front.
  by_cases hlead : beforeIdentifier cut.before = []
  · rw [hlead, List.nil_append] at hbefore
    rw [hlead, hbefore]
    exact (id_map _).symm
  · have hread := read_behind (endsApart_beforeIdentifier hlead) cursor
      { cut with before := lastIdentifier cut.before }
    rwa [MarkedCut.behind, hbefore] at hread

/-- A site with a list ends where the list does. -/
theorem exists_own {cut : MarkedCut} {s : CallSite} (hmark : cut.mark ≠ .quote)
    (h : read cursor cut = .ok s) (hlist : s.arguments = some list) :
    ∃ own s', cut.after = own ++ list.rest ∧ read cursor { cut with after := own } = .ok s' ∧
      s = s'.extend list.rest := by
  obtain ⟨before, mark, after⟩ := cut
  cases mark with
  | quote => exact absurd rfl hmark
  | dot =>
    obtain ⟨member, gap, inner, rfl, hgap, rfl, hwell, hread⟩ := exists_dotted h hlist
    obtain ⟨body, rfl, hown⟩ := ArgumentList.read_with_rest hread
    refine ⟨member ++ (gap ++ '(' :: (body ++ [')'])), _, by simp,
      atDot_of_list hgap hwell (hown []), ?_⟩
    simp [dotted, extend, ArgumentList.extend]
  | paren =>
    change atParen cursor before after = .ok s at h
    rw [atParen_eq] at h
    obtain ⟨found, hread, rfl⟩ := exists_of_map_ok h
    obtain rfl := Option.some.inj hlist
    obtain ⟨body, hafter, hown⟩ := ArgumentList.read_with_rest hread
    refine ⟨body ++ [')'], withList cursor before (body ++ [')']) { found with rest := [] },
      ?_, ?_, ?_⟩
    · rw [hafter, List.append_assoc, List.singleton_append]
    · change atParen cursor before (body ++ [')']) = _
      rw [atParen_eq, hown []]
      rfl
    · rw [hafter]
      simp [withList, extend, ArgumentList.extend]

/-- A site with a list is read in its own text, which starts with its name and ends with its
list. -/
theorem exists_alone {cut : MarkedCut} {s : CallSite} (hmark : cut.mark ≠ .quote)
    (h : read cursor cut = .ok s) (hlist : s.arguments = some list) :
    ∃ own s', cut.after = own ++ list.rest ∧
      read 0 ⟨lastIdentifier cut.before, cut.mark, own⟩ = .ok s' ∧ s'.lead = [] ∧
      s = ((s'.shift s.start).behind s.lead).extend list.rest := by
  -- First what follows the list is cut off, then what stands in front of the name, which also moves
  -- the cursor.
  obtain ⟨own, s₁, hafter, hown, hs⟩ := exists_own hmark h hlist
  rw [read_lead] at hown
  obtain ⟨s₂, hbehind, rfl⟩ := exists_of_map_ok hown
  rw [← Nat.zero_add (cursor + _), read_shift] at hbehind
  obtain ⟨s', hread, rfl⟩ := exists_of_shiftResult_ok hbehind
  have hlead : s'.lead = [] := by
    rw [lead_of_read hread]
    exact beforeIdentifier_eq_nil fun c hc => not_isSeparator_of_mem_lastIdentifier hc
  refine ⟨own, s', hafter, hread, hlead, ?_⟩
  have hlayout := layout_of_read hmark h
  rw [hlayout.start_eq, lead_of_read h]
  exact hs

/-- What is planned for a site does not depend on the text around it. -/
theorem exists_plan_alone {s : CallSite} {n : Nat} {front back : List Char} {r : Resolution}
    {c : Call Origin} (h : (((s.shift n).behind front).extend back).plan r = .ok (c, list)) :
    ∃ c' list', s.plan r = .ok (c', list') ∧ c = c'.shift n ∧
      list.rest = list'.rest ++ back := by
  rw [plan_extend] at h
  obtain ⟨⟨c₁, list₁⟩, hbehind, hfound⟩ := exists_of_map_ok h
  obtain ⟨rfl, rfl⟩ := Prod.mk.inj hfound
  have hshift : (s.shift n).plan r = .ok (c₁, list₁) := hbehind
  rw [plan_shift] at hshift
  obtain ⟨⟨c', list'⟩, hplan, hmoved⟩ := exists_of_shiftResult_ok hshift
  obtain ⟨rfl, rfl⟩ := Prod.mk.inj hmoved
  exact ⟨c', list', hplan, rfl, rfl⟩

end CallSite

end SceneExpr
