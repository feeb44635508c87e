import SceneExpr.CallSite.Arguments
import SceneExpr.CallSite.Mark

namespace SceneExpr

/-- Object names are written with a tilde for each space. -/
def decodeOwner (cs : List Char) : List Char := cs.map fun c => if c = '~' then ' ' else c

/-- A call candidate in the text from a cursor on. Its first identifier stands at `start`, behind
`lead`; `member` is the name in front of the parenthesis or after the dot. The rest is the text past
the name, and past the parenthesis that follows a name without owner. -/
structure CallSite where
  lead : List Char
  start : Nat
  owner : Option (List Char)
  member : List Char
  arguments : Option ArgumentList
  rest : List Char

namespace CallSite

def endsMember (c : Char) : Bool := c = '(' || isAsciiBlank c

def written (s : CallSite) : List Char :=
  match s.owner with
  | none => s.member
  | some owner => owner ++ '.' :: s.member

def memberStart (s : CallSite) : Nat :=
  match s.owner with
  | none => s.start
  | some owner => s.start + width owner + 1

def memberSpan (s : CallSite) : Span := ⟨s.memberStart, s.memberStart + width s.member⟩

def nameSpan (s : CallSite) : Span := ⟨s.start, s.memberSpan.stop⟩

/-- Whether the candidate has the shape of a call: no name is empty, and the member after a dot
holds no separator. -/
def isWellFormed (s : CallSite) : Bool :=
  match s.owner with
  | none => s.member ≠ []
  | some owner => owner ≠ [] && s.member ≠ [] && !s.member.any isSeparator

/-- What is passed through as constant text when nothing is found under the name. -/
def passed (s : CallSite) : List Char :=
  match s.owner with
  | none => s.member ++ ['(']
  | some _ => s.written

def stop (s : CallSite) : Nat :=
  match s.arguments with
  | none => s.memberSpan.stop
  | some list => list.closeAt + 1

/-- The site of a parenthesis. Its list is read whatever its name is. -/
def atParen (cursor : Nat) (before after : List Char) : Except ParseError CallSite := do
  let name := lastIdentifier before
  let list ← ArgumentList.read name (cursor + width before) after
  return {
    lead := beforeIdentifier before
    start := cursor + width (beforeIdentifier before)
    owner := none
    member := name
    arguments := some list
    rest := after }

def listAfter (s : CallSite) : Except ParseError (Option ArgumentList) :=
  match s.rest.dropWhile isAsciiBlank with
  | '(' :: inner =>
    let openAt := s.memberSpan.stop + width (s.rest.takeWhile isAsciiBlank)
    (ArgumentList.read s.written openAt inner).map some
  | _ => .ok none

/-- The site of a dot. A list is looked for only when the candidate is well formed. -/
def atDot (cursor : Nat) (before after : List Char) : Except ParseError CallSite := do
  let site : CallSite := {
    lead := beforeIdentifier before
    start := cursor + width (beforeIdentifier before)
    owner := some (lastIdentifier before)
    member := after.takeWhile fun c => !endsMember c
    arguments := none
    rest := after.dropWhile fun c => !endsMember c }
  if site.isWellFormed then
    return { site with arguments := ← site.listAfter }
  else
    return site

/-- The site of a dot or a parenthesis, in a text that starts at the cursor. -/
def read (cursor : Nat) (cut : MarkedCut) : Except ParseError CallSite :=
  match cut.mark with
  | .dot => atDot cursor cut.before cut.after
  | _ => atParen cursor cut.before cut.after

theorem rest_length_le {cursor : Nat} {cut : MarkedCut} {site : CallSite}
    (h : read cursor cut = .ok site) : site.rest.length ≤ cut.after.length := by
  unfold read at h
  split at h
  · have hd := (List.dropWhile_sublist (l := cut.after) fun c => !endsMember c).length_le
    simp only [atDot, bind, Except.bind, pure, Except.pure] at h
    split at h
    · split at h
      · simp at h
      · obtain rfl := Except.ok.inj h
        exact hd
    · obtain rfl := Except.ok.inj h
      exact hd
  · simp only [atParen, bind, Except.bind, pure, Except.pure] at h
    split at h
    · simp at h
    · obtain rfl := Except.ok.inj h
      exact Nat.le_refl _

theorem listAfter_rest_length_lt {site : CallSite} {list : ArgumentList}
    (h : site.listAfter = .ok (some list)) : list.rest.length < site.rest.length := by
  unfold listAfter at h
  split at h
  next inner heq =>
    simp only [Except.map] at h
    split at h
    · simp at h
    next list' hlist =>
      obtain rfl := Option.some.inj (Except.ok.inj h)
      have hd := (List.dropWhile_sublist (l := site.rest) isAsciiBlank).length_le
      rw [heq, List.length_cons] at hd
      have := ArgumentList.rest_length_lt hlist
      omega
  · simp at h

theorem list_rest_length_lt {cursor : Nat} {cut : MarkedCut} {site : CallSite} {list : ArgumentList}
    (h : read cursor cut = .ok site) (hl : site.arguments = some list) :
    list.rest.length < cut.after.length := by
  unfold read at h
  split at h
  · have hd := (List.dropWhile_sublist (l := cut.after) fun c => !endsMember c).length_le
    simp only [atDot, bind, Except.bind, pure, Except.pure] at h
    split at h
    · split at h
      · simp at h
      next found hfound =>
        obtain rfl := Except.ok.inj h
        dsimp only at hl
        subst hl
        exact Nat.lt_of_lt_of_le (listAfter_rest_length_lt hfound) hd
    · obtain rfl := Except.ok.inj h
      simp at hl
  · simp only [atParen, bind, Except.bind, pure, Except.pure] at h
    split at h
    · simp at h
    next found hfound =>
      obtain rfl := Except.ok.inj h
      obtain rfl := Option.some.inj hl
      exact ArgumentList.rest_length_lt hfound

end CallSite

end SceneExpr
