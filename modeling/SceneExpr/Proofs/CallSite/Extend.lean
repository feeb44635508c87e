import Mathlib.Data.List.TakeWhile
import SceneExpr.Literal
import SceneExpr.Proofs.CallSite.Layout

namespace SceneExpr

theorem takeWhile_append_of_dropWhile {q : Char → Bool} {cs ds : List Char}
    (h : (cs ++ ds).dropWhile q = cs.dropWhile q ++ ds) :
    (cs ++ ds).takeWhile q = cs.takeWhile q := by
  have hwhole : (cs ++ ds).takeWhile q ++ (cs ++ ds).dropWhile q =
      cs.takeWhile q ++ (cs ++ ds).dropWhile q := by
    rw [List.takeWhile_append_dropWhile, h, ← List.append_assoc, List.takeWhile_append_dropWhile]
  exact List.append_cancel_right hwhole

/-- Where a literal ends does not depend on what follows its quote. -/
theorem Literal.cut?_with_past {cs raw past : List Char} (h : cut? cs = some (raw, past))
    (ds : List Char) : cut? (raw ++ '"' :: ds) = some (raw, ds) := by
  fun_induction cut? cs generalizing raw past with
  | case1 => simp at h
  | case2 cs =>
    obtain ⟨rfl, rfl⟩ := Prod.mk.inj (Option.some.inj h)
    rfl
  | case3 c cs ih =>
    obtain ⟨q, hq, he⟩ := Option.map_eq_some_iff.1 h
    obtain ⟨rfl, rfl⟩ := Prod.mk.inj he
    rw [List.cons_append, List.cons_append, cut?, ih hq]
    rfl
  | case4 c cs hquote hescape ih =>
    obtain ⟨q, hq, he⟩ := Option.map_eq_some_iff.1 h
    obtain ⟨rfl, rfl⟩ := Prod.mk.inj he
    -- A backslash at the very end would escape what follows, but no quote lies behind it.
    have hcs : cs ≠ [] := by
      rintro rfl
      simp [cut?] at hq
    rw [List.cons_append, cut?, ih hq]
    · rfl
    · exact hquote
    · intro d rest hc hrest
      cases cs with
      | nil => exact hcs rfl
      | cons c' cs => exact hescape c' cs hc rfl

theorem Literal.cut?_append {cs raw past : List Char} (h : cut? cs = some (raw, past))
    (ds : List Char) : cut? (cs ++ ds) = some (raw, past ++ ds) := by
  rw [← cut?_eq h, List.append_assoc, List.cons_append, cut?_with_past h]

namespace Pieces

/-- How a list is divided does not depend on what follows its closing parenthesis. -/
theorem divide?_with_rest {depth : Nat} {quoted : Bool} {cs : List Char} {p : Pieces}
    (h : divide? depth quoted cs = some p) (ds : List Char) :
    divide? depth quoted (p.body ++ ')' :: ds) = some { p with rest := ds } := by
  fun_induction divide? depth quoted cs generalizing p with
  | case1 => simp at h
  | case2 depth c cs ih =>
    obtain ⟨q, hq, rfl⟩ := Option.map_eq_some_iff.1 h
    change divide? depth true ('\\' :: c :: (q.body ++ ')' :: ds)) = _
    rw [divide?, ih hq]
    rfl
  | case3 depth c cs hescape ih =>
    obtain ⟨q, hq, rfl⟩ := Option.map_eq_some_iff.1 h
    have hcs : cs ≠ [] := by
      rintro rfl
      simp [divide?] at hq
    change divide? depth true (c :: (q.body ++ ')' :: ds)) = _
    rw [divide?, ih hq]
    · rfl
    · intro d rest hc hrest
      cases cs with
      | nil => exact hcs rfl
      | cons c' cs => exact hescape c' cs hc rfl
  | case4 depth cs ih =>
    obtain ⟨q, hq, rfl⟩ := Option.map_eq_some_iff.1 h
    change divide? depth false ('"' :: (q.body ++ ')' :: ds)) = _
    unfold divide?
    simp [ih hq, push]
  | case5 depth cs hquote ih =>
    obtain ⟨q, hq, rfl⟩ := Option.map_eq_some_iff.1 h
    change divide? depth false ('(' :: (q.body ++ ')' :: ds)) = _
    unfold divide?
    simp [ih hq, push]
  | case6 cs =>
    obtain rfl := Option.some.inj h
    rfl
  | case7 cs depth hquote hopen ih =>
    obtain ⟨q, hq, rfl⟩ := Option.map_eq_some_iff.1 h
    change divide? (depth + 1) false (')' :: (q.body ++ ')' :: ds)) = _
    unfold divide?
    simp [ih hq, push]
  | case8 depth c cs hquote hopen hclose hcomma ih =>
    obtain ⟨q, hq, rfl⟩ := Option.map_eq_some_iff.1 h
    obtain ⟨rfl, rfl⟩ := hcomma
    change divide? 0 false (',' :: (q.body ++ ')' :: ds)) = _
    unfold divide?
    simp [ih hq, toList]
  | case9 depth c cs hquote hopen hclose hcomma ih =>
    obtain ⟨q, hq, rfl⟩ := Option.map_eq_some_iff.1 h
    change divide? depth false (c :: (q.body ++ ')' :: ds)) = _
    unfold divide?
    simp [hquote, hopen, hclose, hcomma, ih hq, push]

end Pieces

namespace ArgumentList

def extend (list : ArgumentList) (ds : List Char) : ArgumentList :=
  { list with rest := list.rest ++ ds }

theorem read_with_rest {function inner : List Char} {openAt : Nat} {list : ArgumentList}
    (h : read function openAt inner = .ok list) :
    ∃ body, inner = body ++ ')' :: list.rest ∧
      ∀ ds, read function openAt (body ++ ')' :: ds) = .ok { list with rest := ds } := by
  unfold read at h
  split at h
  · simp at h
  next p hp =>
    obtain rfl := Except.ok.inj h
    refine ⟨p.body, by rw [← Pieces.text_eq, Pieces.text_divide? hp], ?_⟩
    intro ds
    rw [read, Pieces.divide?_with_rest hp]
    rfl

theorem read_append {function inner : List Char} {openAt : Nat} {list : ArgumentList}
    (h : read function openAt inner = .ok list) (ds : List Char) :
    read function openAt (inner ++ ds) = .ok (list.extend ds) := by
  obtain ⟨body, hinner, hread⟩ := read_with_rest h
  rw [hinner, List.append_assoc, List.cons_append, hread]
  rfl

theorem exists_read {inner : List Char} (h : Pieces.divide? 0 false inner ≠ none)
    (function : List Char) (openAt : Nat) : ∃ list, read function openAt inner = .ok list := by
  obtain ⟨p, hp⟩ := Option.ne_none_iff_exists'.1 h
  unfold read
  rw [hp]
  exact ⟨_, rfl⟩

end ArgumentList

/-- A list that the text opens, blanks apart, is closed in it. -/
def ClosesFirst (cs : List Char) : Prop :=
  ∀ inner, cs.dropWhile isAsciiBlank = '(' :: inner → Pieces.divide? 0 false inner ≠ none

theorem ClosesFirst.cons {c : Char} {cs : List Char} (h : ClosesFirst cs) (hc : c ≠ '(') :
    ClosesFirst (c :: cs) := by
  intro inner hinner
  by_cases hblank : isAsciiBlank c = true
  · rw [List.dropWhile_cons_of_pos hblank] at hinner
    exact h inner hinner
  · rw [List.dropWhile_cons_of_neg hblank] at hinner
    exact absurd (List.cons.inj hinner).1 hc

def MarkedCut.extend (cut : MarkedCut) (ds : List Char) : MarkedCut :=
  { cut with after := cut.after ++ ds }

def MarkedCut.behind (cut : MarkedCut) (front : List Char) : MarkedCut :=
  { cut with before := front ++ cut.before }

theorem nextMark?_append_of_some {kind : ValueKind} {cs : List Char} {cut : MarkedCut}
    (h : nextMark? kind cs = some cut) (ds : List Char) :
    nextMark? kind (cs ++ ds) = some (cut.extend ds) := by
  obtain ⟨hbefore, hmark, rfl⟩ := nextMark?_eq_some_iff.1 h
  exact nextMark?_eq_some_iff.2 ⟨hbefore, hmark, List.append_assoc ..⟩

theorem nextMark?_append_of_none {kind : ValueKind} {cs : List Char}
    (h : nextMark? kind cs = none) (ds : List Char) :
    nextMark? kind (cs ++ ds) = (nextMark? kind ds).map (·.behind cs) := by
  have hcs := nextMark?_eq_none_iff.1 h
  cases hds : nextMark? kind ds with
  | none =>
    exact nextMark?_eq_none_iff.2 (List.forall_mem_append.2 ⟨hcs, nextMark?_eq_none_iff.1 hds⟩)
  | some cut =>
    obtain ⟨hbefore, hmark, rfl⟩ := nextMark?_eq_some_iff.1 hds
    exact nextMark?_eq_some_iff.2
      ⟨List.forall_mem_append.2 ⟨hcs, hbefore⟩, hmark, (List.append_assoc ..).symm⟩

def EndsApart (cs : List Char) : Prop := ∃ xs x, cs = xs ++ [x] ∧ isSeparator x = true

theorem beforeIdentifier_append {front : List Char} (h : EndsApart front) (cs : List Char) :
    beforeIdentifier (front ++ cs) = front ++ beforeIdentifier cs := by
  obtain ⟨xs, x, rfl, hx⟩ := h
  have hstop : (xs ++ [x]).reverse.dropWhile (fun c => !isSeparator c) = (xs ++ [x]).reverse := by
    rw [List.reverse_append, List.reverse_singleton, List.singleton_append,
      List.dropWhile_cons_of_neg (by simp [hx])]
  unfold beforeIdentifier
  rw [List.reverse_append, List.dropWhile_append]
  split
  next hcs =>
    rw [hstop, List.isEmpty_iff.1 hcs]
    simp
  next => rw [List.reverse_append, List.reverse_reverse]

theorem lastIdentifier_append {front : List Char} (h : EndsApart front) (cs : List Char) :
    lastIdentifier (front ++ cs) = lastIdentifier cs := by
  have hwhole : beforeIdentifier (front ++ cs) ++ lastIdentifier (front ++ cs) =
      beforeIdentifier (front ++ cs) ++ lastIdentifier cs := by
    rw [beforeIdentifier_append_lastIdentifier, beforeIdentifier_append h, List.append_assoc,
      beforeIdentifier_append_lastIdentifier]
  exact List.append_cancel_left hwhole

namespace CallSite

/-- The site in a text with more text behind it. -/
def extend (s : CallSite) (ds : List Char) : CallSite :=
  { s with arguments := s.arguments.map (·.extend ds), rest := s.rest ++ ds }

/-- The site in a text with more text in front, up to which nothing is a call. -/
def behind (s : CallSite) (front : List Char) : CallSite := { s with lead := front ++ s.lead }

theorem dropWhile_ne_nil_of_list {s : CallSite} {list : ArgumentList}
    (h : s.listAfter = .ok (some list)) : s.rest.dropWhile isAsciiBlank ≠ [] := by
  intro hrest
  rw [listAfter_of_not_open (by simp [hrest])] at h
  simp at h

theorem listAfter_append {s : CallSite} {found : Option ArgumentList} (h : s.listAfter = .ok found)
    (hrest : s.rest.dropWhile isAsciiBlank ≠ []) (ds : List Char) :
    { s with rest := s.rest ++ ds }.listAfter = .ok (found.map (·.extend ds)) := by
  have hdrop : (s.rest ++ ds).dropWhile isAsciiBlank = s.rest.dropWhile isAsciiBlank ++ ds := by
    rw [List.dropWhile_append, if_neg (by simpa using hrest)]
  have htake : (s.rest ++ ds).takeWhile isAsciiBlank = s.rest.takeWhile isAsciiBlank :=
    takeWhile_append_of_dropWhile hdrop
  by_cases hopen : ∃ inner, s.rest.dropWhile isAsciiBlank = '(' :: inner
  · obtain ⟨inner, hinner⟩ := hopen
    rw [listAfter_of_open hinner] at h
    rw [hinner, List.cons_append] at hdrop
    rw [listAfter_of_open hdrop, htake]
    obtain ⟨list, hread, rfl⟩ := exists_of_map_ok h
    have hmore := ArgumentList.read_append hread ds
    change (ArgumentList.read s.written
      (s.memberSpan.stop + width (s.rest.takeWhile isAsciiBlank)) (inner ++ ds)).map some = _
    rw [hmore]
    rfl
  · have hclosed : ∀ inner, s.rest.dropWhile isAsciiBlank ≠ '(' :: inner :=
      fun inner hinner => hopen ⟨inner, hinner⟩
    rw [listAfter_of_not_open hclosed] at h
    obtain rfl := Except.ok.inj h
    apply listAfter_of_not_open
    intro inner hinner
    rw [hdrop] at hinner
    obtain ⟨c, cs, hcs⟩ := List.exists_cons_of_ne_nil hrest
    rw [hcs, List.cons_append] at hinner
    exact hclosed cs (by rw [hcs, (List.cons.inj hinner).1])

/-- A list that more text opens is read if it is closed there. -/
theorem exists_listAfter_append {s : CallSite} {found : Option ArgumentList}
    (h : s.listAfter = .ok found) {ds : List Char} (hds : ClosesFirst ds) :
    ∃ more, { s with rest := s.rest ++ ds }.listAfter = .ok more := by
  -- With nothing but blanks behind the name, the list may open in the text that follows.
  by_cases hrest : s.rest.dropWhile isAsciiBlank = []
  · have hdrop : (s.rest ++ ds).dropWhile isAsciiBlank = ds.dropWhile isAsciiBlank := by
      rw [List.dropWhile_append, hrest]
      rfl
    by_cases hopen : ∃ inner, ds.dropWhile isAsciiBlank = '(' :: inner
    · obtain ⟨inner, hinner⟩ := hopen
      rw [hinner] at hdrop
      rw [listAfter_of_open hdrop]
      obtain ⟨list, hread⟩ := ArgumentList.exists_read (hds inner hinner) s.written
        (s.memberSpan.stop + width ((s.rest ++ ds).takeWhile isAsciiBlank))
      exact ⟨some list, congrArg (Except.map some) hread⟩
    · refine ⟨none, listAfter_of_not_open ?_⟩
      intro inner hinner
      exact hopen ⟨inner, hdrop ▸ hinner⟩
  · exact ⟨_, listAfter_append h hrest ds⟩

theorem bareAtDot_append {cursor : Nat} {before after ds : List Char}
    (h : (after ++ ds).dropWhile (fun c => !endsMember c) =
      after.dropWhile (fun c => !endsMember c) ++ ds) :
    bareAtDot cursor before (after ++ ds) =
      { bareAtDot cursor before after with
        rest := (bareAtDot cursor before after).rest ++ ds } := by
  have htake := takeWhile_append_of_dropWhile h
  simp only [bareAtDot, h, htake]

/-- Only a member that runs to the end of a text can run on in a longer one. -/
theorem runs_on {after ds : List Char} {d : Char}
    (h : (after ++ d :: ds).dropWhile (fun c => !endsMember c) ≠
      after.dropWhile (fun c => !endsMember c) ++ d :: ds) :
    (∀ c ∈ after, (!endsMember c) = true) ∧ (!endsMember d) = true := by
  have hafter : after.dropWhile (fun c => !endsMember c) = [] := by
    by_contra hsome
    apply h
    rw [List.dropWhile_append, if_neg (by simpa using hsome)]
  refine ⟨List.dropWhile_eq_nil_iff.1 hafter, ?_⟩
  by_contra hends
  apply h
  rw [List.dropWhile_append, hafter, List.isEmpty_nil, if_pos rfl, List.nil_append,
    List.dropWhile_cons_of_neg (p := fun c => !endsMember c) hends]

/-- Reading a dot adds nothing but a list to the candidate. -/
theorem bare_of_read {cursor : Nat} {cut : MarkedCut} {s : CallSite} (hmark : cut.mark = .dot)
    (h : read cursor cut = .ok s) :
    ∃ arguments, s = { bareAtDot cursor cut.before cut.after with arguments := arguments } := by
  rw [read, hmark] at h
  obtain ⟨found, rfl, -⟩ := exists_of_atDot h
  exact ⟨found, rfl⟩

/-- A site is the same in a longer text, if its member ends. Only its list may be found there. -/
theorem exists_read_extend {cursor : Nat} {cut : MarkedCut} {s : CallSite}
    (h : read cursor cut = .ok s) {ds : List Char} (hds : ClosesFirst ds)
    (hmember : cut.mark = .dot → (cut.after ++ ds).dropWhile (fun c => !endsMember c) =
      cut.after.dropWhile (fun c => !endsMember c) ++ ds) :
    ∃ arguments, read cursor (cut.extend ds) =
      .ok { s with arguments := arguments, rest := s.rest ++ ds } := by
  unfold read at h ⊢
  dsimp only [MarkedCut.extend]
  split at h
  next hmark =>
    obtain ⟨found, rfl, ⟨hwell, hafter⟩ | ⟨hwell, -⟩⟩ := exists_of_atDot h
    · obtain ⟨more, hmore⟩ := exists_listAfter_append hafter hds
      rw [atDot_eq, bareAtDot_append (hmember hmark), hmore]
      exact ⟨more, if_pos hwell⟩
    · rw [atDot_eq, bareAtDot_append (hmember hmark)]
      exact ⟨none, if_neg hwell⟩
  next =>
    rw [atParen_eq] at h ⊢
    obtain ⟨list, hread, rfl⟩ := exists_of_map_ok h
    rw [ArgumentList.read_append hread]
    exact ⟨some (list.extend ds), rfl⟩

/-- A site that has a list is the same site in a longer text. -/
theorem read_extend_of_list {cursor : Nat} {cut : MarkedCut} {s : CallSite} {list : ArgumentList}
    (h : read cursor cut = .ok s) (hlist : s.arguments = some list) (ds : List Char) :
    read cursor (cut.extend ds) = .ok (s.extend ds) := by
  unfold read at h ⊢
  dsimp only [MarkedCut.extend]
  split at h
  · obtain ⟨found, rfl, hfound⟩ := exists_of_atDot h
    obtain rfl : found = some list := hlist
    rcases hfound with ⟨hwell, hafter⟩ | ⟨-, hnone⟩
    · have hrest := dropWhile_ne_nil_of_list hafter
      have hmember : (cut.after ++ ds).dropWhile (fun c => !endsMember c) =
          cut.after.dropWhile (fun c => !endsMember c) ++ ds := by
        rw [List.dropWhile_append, if_neg]
        intro hempty
        apply hrest
        rw [bareAtDot, List.isEmpty_iff.1 hempty]
        rfl
      rw [atDot_eq, bareAtDot_append hmember, listAfter_append hafter hrest]
      exact if_pos hwell
    · cases hnone
  · rw [atParen_eq] at h ⊢
    obtain ⟨found, hread, rfl⟩ := exists_of_map_ok h
    rw [ArgumentList.read_append hread]
    rfl

theorem plan_extend (s : CallSite) (r : Resolution) (ds : List Char) :
    (s.extend ds).plan r = (s.plan r).map fun found => (found.1, found.2.extend ds) := by
  have harguments : (s.extend ds).arguments = s.arguments.map (·.extend ds) := rfl
  unfold plan
  rw [harguments]
  cases s.arguments with
  | none => rfl
  | some list =>
    have hbind : Binding.bind r.signature (s.extend ds).written (list.extend ds) =
        Binding.bind r.signature s.written list := rfl
    simp only [Option.map_some, hbind]
    cases Binding.bind r.signature s.written list <;> rfl

theorem read_behind {front : List Char} (hfront : EndsApart front) (cursor : Nat)
    (cut : MarkedCut) :
    read cursor (cut.behind front) = (read (cursor + width front) cut).map (·.behind front) := by
  have hbefore := beforeIdentifier_append hfront cut.before
  have hlast := lastIdentifier_append hfront cut.before
  have hstart : cursor + width (front ++ beforeIdentifier cut.before) =
      cursor + width front + width (beforeIdentifier cut.before) := by
    rw [width_append, Nat.add_assoc]
  have hopen : cursor + width (front ++ cut.before) = cursor + width front + width cut.before := by
    rw [width_append, Nat.add_assoc]
  unfold read MarkedCut.behind
  dsimp only
  split
  · have hbare : bareAtDot cursor (front ++ cut.before) cut.after =
        (bareAtDot (cursor + width front) cut.before cut.after).behind front := by
      rw [bareAtDot, bareAtDot, behind, hbefore, hlast, hstart]
    rw [atDot_eq, atDot_eq, hbare]
    change (if (bareAtDot (cursor + width front) cut.before cut.after).isWellFormed then
      (bareAtDot (cursor + width front) cut.before cut.after).listAfter.map _ else _) = _
    split
    · cases (bareAtDot (cursor + width front) cut.before cut.after).listAfter <;> rfl
    · rfl
  · have hlist (list : ArgumentList) : withList cursor (front ++ cut.before) cut.after list =
        (withList (cursor + width front) cut.before cut.after list).behind front := by
      rw [withList, withList, behind, hbefore, hlast, hstart]
    rw [atParen_eq, atParen_eq, hlast, hopen, funext hlist]
    cases ArgumentList.read (lastIdentifier cut.before) (cursor + width front + width cut.before)
      cut.after <;> rfl

end CallSite

end SceneExpr
