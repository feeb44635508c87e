import SceneExpr.Proofs.CallSite.Layout

namespace SceneExpr

/-- What is found, or else the error, as seen from a text that holds the present one at octet
`n`. -/
def shiftResult {α : Type} (n : Nat) (move : α → α) :
    Except ParseError α → Except ParseError α
  | .ok a => .ok (move a)
  | .error e => .error (e.shift n)

theorem map_shiftResult {α β : Type} {n : Nat} {move : α → α} {move' : β → β}
    {f g : α → β} (h : ∀ a, g (move a) = move' (f a)) (r : Except ParseError α) :
    (shiftResult n move r).map g = shiftResult n move' (r.map f) := by
  cases r with
  | ok a => exact congrArg Except.ok (h a)
  | error e => rfl

theorem exists_of_shiftResult_ok {α : Type} {n : Nat} {move : α → α} {r : Except ParseError α}
    {b : α} (h : shiftResult n move r = .ok b) : ∃ a, r = .ok a ∧ b = move a := by
  cases r with
  | ok a => exact ⟨a, rfl, (Except.ok.inj h).symm⟩
  | error e => cases h

theorem ParseError.shift_shift (e : ParseError) (m n : Nat) :
    (e.shift m).shift n = e.shift (m + n) := by
  simp only [shift, Span.shift_shift]

namespace RawArgument

def shift (a : RawArgument) (n : Nat) : RawArgument := { a with start := a.start + n }

theorem place_shift (start n : Nat) (texts : List (List Char)) :
    place (start + n) texts = (place start texts).map (·.shift n) := by
  induction texts generalizing start with
  | nil => rfl
  | cons text texts ih =>
    have hnext : start + n + width text + 1 = start + width text + 1 + n := by omega
    rw [place, place, List.map_cons, hnext, ih]
    rfl

theorem dropBlankLast_shift (as : List RawArgument) (n : Nat) :
    dropBlankLast (as.map (·.shift n)) = (dropBlankLast as).map (·.shift n) := by
  have hblank : (as.map (·.shift n)).getLast?.any isBlank = as.getLast?.any isBlank := by
    rw [List.getLast?_map]
    cases as.getLast? <;> rfl
  unfold dropBlankLast
  rw [hblank]
  split
  · rw [List.map_dropLast]
  · rfl

end RawArgument

namespace ArgumentList

def shift (list : ArgumentList) (n : Nat) : ArgumentList where
  openAt := list.openAt + n
  closeAt := list.closeAt + n
  arguments := list.arguments.map (·.shift n)
  rest := list.rest

theorem read_shift (function : List Char) (openAt n : Nat) (inner : List Char) :
    read function (openAt + n) inner = shiftResult n (·.shift n) (read function openAt inner) := by
  have hparen : (⟨openAt + n, openAt + n + 1⟩ : Span) =
      Span.shift ⟨openAt, openAt + 1⟩ n := by
    rw [Span.shift, Nat.add_right_comm]
  unfold read
  cases Pieces.divide? 0 false inner with
  | none =>
    dsimp only
    rw [hparen]
    rfl
  | some p =>
    dsimp only
    rw [shiftResult, shift, Nat.add_right_comm openAt n 1, RawArgument.place_shift,
      RawArgument.dropBlankLast_shift, Nat.add_right_comm openAt n]

end ArgumentList

def Origin.shift (o : Origin) (n : Nat) : Origin :=
  match o with
  | .written start => .written (start + n)
  | .standIn list => .standIn (list.shift n)

theorem Origin.locate_shift (o : Origin) (n : Nat) (e : ParseError) :
    (o.shift n).locate e = (o.locate e).shift n := by
  cases o with
  | written start => exact (e.shift_shift start n).symm
  | standIn list => rfl

def Argument.shift (a : Argument Origin) (n : Nat) : Argument Origin :=
  match a with
  | .raw text => .raw text
  | .parsed kind source origin => .parsed kind source (origin.shift n)

theorem Parameter.argument_shift (p : Parameter) (text : List Char) (o : Origin) (n : Nat) :
    p.argument text (o.shift n) = (p.argument text o).shift n := by
  unfold argument
  cases p.kind.valueKind? <;> rfl

namespace Binding

theorem place_shift (list : Span) (ps : List Parameter) (as : List RawArgument) (n : Nat) :
    place (list.shift n) ps (as.map (·.shift n)) = (place list ps as).map (·.shift n) := by
  fun_induction place list ps as with
  | case1 => rfl
  | case2 p ps as hp ih =>
    rw [List.map_cons, ← ih]
    simp only [place, if_pos hp]
    rfl
  | case3 p ps hp a as bound ih =>
    simp only [List.map_cons, place, if_neg hp, ih, List.cons.injEq, and_true, bound]
    change (if (p.optional && a.isBlank) = true then _ else _) = _
    split
    · exact p.argument_shift _ (.standIn list) n
    · exact p.argument_shift _ (.written a.start) n
  | case4 p ps hp text ih =>
    rw [List.map_nil] at ih ⊢
    simp only [place, if_neg hp, ih, List.map_cons, List.cons.injEq, and_true]
    exact p.argument_shift text (.standIn list) n

theorem bind_shift (signature : Signature) (name : List Char) (list : ArgumentList) (n : Nat) :
    bind signature name (list.shift n) =
      shiftResult n (List.map (·.shift n)) (bind signature name list) := by
  have hparen : (⟨list.openAt + n, list.openAt + n + 1⟩ : Span) =
      Span.shift ⟨list.openAt, list.openAt + 1⟩ n := by
    simp only [Span.shift, Span.mk.injEq, true_and]
    omega
  simp only [bind, ArgumentList.shift, List.length_map, hparen, place_shift]
  split <;> rfl

end Binding

namespace CallSite

def shift (s : CallSite) (n : Nat) : CallSite :=
  { s with start := s.start + n, arguments := s.arguments.map (·.shift n) }

theorem memberSpan_shift (s : CallSite) (n : Nat) :
    (s.shift n).memberSpan = s.memberSpan.shift n := by
  have hstart : (s.shift n).memberStart = s.memberStart + n := by
    have howner : (s.shift n).owner = s.owner := rfl
    have hfirst : (s.shift n).start = s.start + n := rfl
    unfold memberStart
    rw [howner, hfirst]
    cases s.owner with
    | none => rfl
    | some owner =>
      dsimp only
      omega
  change Span.mk (s.shift n).memberStart ((s.shift n).memberStart + width s.member) = _
  rw [hstart, memberSpan, Span.shift, Nat.add_right_comm]

theorem nameSpan_shift (s : CallSite) (n : Nat) : (s.shift n).nameSpan = s.nameSpan.shift n := by
  rw [nameSpan, memberSpan_shift]
  rfl

theorem atParen_shift (cursor n : Nat) (before after : List Char) :
    atParen (cursor + n) before after =
      shiftResult n (·.shift n) (atParen cursor before after) := by
  have hlist (list : ArgumentList) : withList (cursor + n) before after (list.shift n) =
      (withList cursor before after list).shift n := by
    rw [withList, Nat.add_right_comm]
    rfl
  rw [atParen_eq, atParen_eq, Nat.add_right_comm, ArgumentList.read_shift]
  exact map_shiftResult hlist _

theorem listAfter_shift (s : CallSite) (n : Nat) :
    (s.shift n).listAfter = shiftResult n (Option.map (·.shift n)) s.listAfter := by
  have hopen (gap : List Char) : (s.shift n).memberSpan.stop + width gap =
      s.memberSpan.stop + width gap + n := by
    rw [memberSpan_shift, Span.shift, Nat.add_right_comm]
  have hrest : (s.shift n).rest = s.rest := rfl
  unfold listAfter
  rw [hopen, hrest]
  cases s.rest.dropWhile isAsciiBlank with
  | nil => rfl
  | cons c inner =>
    by_cases hc : c = '('
    · subst hc
      change (ArgumentList.read s.written _ inner).map some =
        shiftResult n _ ((ArgumentList.read s.written _ inner).map some)
      rw [ArgumentList.read_shift]
      apply map_shiftResult
      intro list
      rfl
    · simp [hc, shiftResult]

theorem atDot_shift (cursor n : Nat) (before after : List Char) :
    atDot (cursor + n) before after = shiftResult n (·.shift n) (atDot cursor before after) := by
  have hbare : bareAtDot (cursor + n) before after = (bareAtDot cursor before after).shift n := by
    simp only [bareAtDot, shift, Nat.add_right_comm cursor n, Option.map_none]
  rw [atDot_eq, atDot_eq, hbare, listAfter_shift]
  change (if (bareAtDot cursor before after).isWellFormed then _ else _) = _
  split
  · apply map_shiftResult
    intro found
    rfl
  · rfl

theorem read_shift (cursor n : Nat) (cut : MarkedCut) :
    read (cursor + n) cut = shiftResult n (·.shift n) (read cursor cut) := by
  unfold read
  split
  · exact atDot_shift cursor n cut.before cut.after
  · exact atParen_shift cursor n cut.before cut.after

end CallSite

def Call.shift (c : Call Origin) (n : Nat) : Call Origin :=
  { c with arguments := c.arguments.map (·.shift n), span := c.span.shift n }

theorem CallSite.plan_shift (s : CallSite) (r : Resolution) (n : Nat) :
    (s.shift n).plan r =
      shiftResult n (fun found => (found.1.shift n, found.2.shift n)) (s.plan r) := by
  have hwritten : (s.shift n).written = s.written := rfl
  have harguments : (s.shift n).arguments = s.arguments.map (·.shift n) := rfl
  unfold plan
  rw [memberSpan_shift, hwritten, harguments]
  cases s.arguments with
  | none => rfl
  | some list =>
    dsimp only [Option.map_some]
    rw [Binding.bind_shift]
    cases Binding.bind r.signature s.written list with
    | error e => rfl
    | ok arguments =>
      simp only [shiftResult, shift, ArgumentList.shift, Call.shift, Span.shift,
        Nat.add_right_comm list.closeAt n 1]

def Item.shift (i : Item) (n : Nat) : Item :=
  match i with
  | .constant text => .constant text
  | .literal value span => .literal value (span.shift n)
  | .call c signature => .call (c.shift n) signature

namespace Scan

def shift (s : Scan) (n : Nat) : Scan :=
  ⟨s.items.map (·.shift n), s.error.map (·.shift n)⟩

theorem shift_constant (text : List Char) (s : Scan) (n : Nat) :
    (constant text s).shift n = constant text (s.shift n) := by
  unfold constant
  split <;> rfl

end Scan

end SceneExpr
