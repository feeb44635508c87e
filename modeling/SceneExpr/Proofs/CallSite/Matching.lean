import SceneExpr.Proofs.CallSite.Written
import SceneExpr.Proofs.Literal

namespace SceneExpr

/-- There are as many opening parentheses as closing ones, with `depth` more in front. -/
def BalancedFrom (depth : Nat) (ms : List (Nat × Char)) : Prop :=
  depth + (ms.map (·.2)).count '(' = (ms.map (·.2)).count ')'

/-- The character is at the offset, and the parentheses before it are balanced. -/
def AtLevel (depth : Nat) (ms : List (Nat × Char)) (n : Nat) (c : Char) : Prop :=
  ∃ before after, ms = before ++ (n, c) :: after ∧ BalancedFrom depth before

section Level

variable {depth n m : Nat} {c d : Char} {ms : List (Nat × Char)}

theorem balancedFrom_open :
    BalancedFrom depth ((n, '(') :: ms) ↔ BalancedFrom (depth + 1) ms := by
  simp [BalancedFrom, Nat.add_assoc, Nat.add_comm]

theorem balancedFrom_close :
    BalancedFrom (depth + 1) ((n, ')') :: ms) ↔ BalancedFrom depth ms := by
  simp [BalancedFrom, Nat.add_right_comm depth 1]

theorem balancedFrom_plain (hopen : c ≠ '(') (hclose : c ≠ ')') :
    BalancedFrom depth ((n, c) :: ms) ↔ BalancedFrom depth ms := by
  simp [BalancedFrom, hopen, hclose]

theorem atLevel_cons : AtLevel depth ((n, c) :: ms) m d ↔ (depth = 0 ∧ m = n ∧ d = c) ∨
    ∃ before after, ms = before ++ (m, d) :: after ∧ BalancedFrom depth ((n, c) :: before) := by
  constructor
  · rintro ⟨before, after, hms, hbalanced⟩
    cases before with
    | nil =>
      obtain ⟨heq, -⟩ := List.cons.inj hms
      obtain ⟨rfl, rfl⟩ := Prod.mk.inj heq
      exact .inl ⟨hbalanced, rfl, rfl⟩
    | cons b before =>
      obtain ⟨rfl, htail⟩ := List.cons.inj hms
      exact .inr ⟨before, after, htail, hbalanced⟩
  · rintro (⟨rfl, rfl, rfl⟩ | ⟨before, after, rfl, hbalanced⟩)
    · exact ⟨[], ms, rfl, rfl⟩
    · exact ⟨(n, c) :: before, after, rfl, hbalanced⟩

theorem AtLevel.mem (h : AtLevel depth ms m d) : (m, d) ∈ ms := by
  obtain ⟨before, after, rfl, -⟩ := h
  simp

theorem atLevel_open (hd : d ≠ '(') :
    AtLevel depth ((n, '(') :: ms) m d ↔ AtLevel (depth + 1) ms m d := by
  rw [atLevel_cons]
  simp only [hd, and_false, false_or, balancedFrom_open]
  rfl

theorem atLevel_close : AtLevel (depth + 1) ((n, ')') :: ms) m d ↔ AtLevel depth ms m d := by
  rw [atLevel_cons]
  simp only [Nat.succ_ne_zero, false_and, false_or, balancedFrom_close]
  rfl

theorem atLevel_plain (hopen : c ≠ '(') (hclose : c ≠ ')') :
    AtLevel depth ((n, c) :: ms) m d ↔
      (depth = 0 ∧ m = n ∧ d = c) ∨ AtLevel depth ms m d := by
  rw [atLevel_cons]
  simp only [balancedFrom_plain hopen hclose]
  rfl

end Level

/-- The first closing parenthesis at the level, and the commas at the level in front of it. -/
structure ClosedAt (depth : Nat) (ms : List (Nat × Char)) (cuts : List Nat)
    (close : Nat) : Prop where
  closes : AtLevel depth ms close ')'
  first : ∀ n, AtLevel depth ms n ')' → close ≤ n
  ascending : cuts.Pairwise (· < ·)
  mem_cuts : ∀ n, n ∈ cuts ↔ n < close ∧ AtLevel depth ms n ','

theorem ClosedAt.congr {depth depth' : Nat} {ms ms' : List (Nat × Char)} {cuts : List Nat}
    {close : Nat} (h : ClosedAt depth' ms' cuts close)
    (hclose : ∀ n, AtLevel depth ms n ')' ↔ AtLevel depth' ms' n ')')
    (hcomma : ∀ n, AtLevel depth ms n ',' ↔ AtLevel depth' ms' n ',') :
    ClosedAt depth ms cuts close where
  closes := (hclose close).2 h.closes
  first n hn := h.first n ((hclose n).1 hn)
  ascending := h.ascending
  mem_cuts n := by rw [h.mem_cuts, hcomma]

theorem ClosedAt.close {k : Nat} {ms : List (Nat × Char)} (hk : ∀ m ∈ ms, k < m.1) :
    ClosedAt 0 ((k, ')') :: ms) [] k := by
  have hle {n : Nat} {d : Char} (hn : AtLevel 0 ((k, ')') :: ms) n d) : k ≤ n := by
    rcases List.mem_cons.1 hn.mem with heq | hmem
    · rw [(Prod.mk.inj heq).1]
    · exact Nat.le_of_lt (hk _ hmem)
  refine ⟨⟨[], ms, rfl, rfl⟩, fun n => hle, .nil, fun n => ?_⟩
  refine ⟨fun hn => absurd hn List.not_mem_nil, fun ⟨hlt, hn⟩ => ?_⟩
  exact absurd hlt (Nat.not_lt.2 (hle hn))

theorem ClosedAt.comma {k close : Nat} {cuts : List Nat} {ms : List (Nat × Char)}
    (h : ClosedAt 0 ms cuts close) (hk : ∀ m ∈ ms, k < m.1) :
    ClosedAt 0 ((k, ',') :: ms) (k :: cuts) close := by
  have hplain (n : Nat) {d : Char} :
      AtLevel 0 ((k, ',') :: ms) n d ↔ (n = k ∧ d = ',') ∨ AtLevel 0 ms n d := by
    simp [atLevel_plain]
  refine ⟨(hplain close).2 (.inr h.closes), fun n hn => ?_, ?_, fun n => ?_⟩
  · rcases (hplain n).1 hn with ⟨-, hc⟩ | hn
    · cases hc
    · exact h.first n hn
  · exact List.pairwise_cons.2 ⟨fun n hn => hk _ ((h.mem_cuts n).1 hn).2.mem, h.ascending⟩
  · have hlt : k < close := hk _ h.closes.mem
    rw [List.mem_cons, h.mem_cuts, hplain]
    constructor
    · rintro (rfl | ⟨hn, hlevel⟩)
      · exact ⟨hlt, .inl ⟨rfl, rfl⟩⟩
      · exact ⟨hn, .inr hlevel⟩
    · rintro ⟨hn, ⟨rfl, -⟩ | hlevel⟩
      · exact .inl rfl
      · exact .inr ⟨hn, hlevel⟩

namespace Pieces

/-- The commas that cut and the parenthesis that closes, as met behind `depth` inner parentheses. -/
def marks? : (depth : Nat) → List (Nat × Char) → Option (List Nat × Nat)
  | _, [] => none
  | depth, (n, c) :: ms =>
    if c = '(' then marks? (depth + 1) ms
    else if c = ')' then
      match depth with
      | 0 => some ([], n)
      | depth + 1 => marks? depth ms
    else if c = ',' ∧ depth = 0 then (marks? depth ms).map fun p => (n :: p.1, p.2)
    else marks? depth ms

def ends (start : Nat) : List (List Char) → List Nat
  | [] => []
  | piece :: pieces => (start + width piece) :: ends (start + width piece + 1) pieces

theorem divide?_unclosed {cs : List Char} (h : Literal.cut? cs = none) (depth : Nat) :
    divide? depth true cs = none := by
  fun_induction Literal.cut? cs with
  | case1 => rfl
  | case2 cs => cases h
  | case3 c cs ih =>
    rw [divide?, ih (Option.map_eq_none_iff.1 h), Option.map_none]
  | case4 c cs hquote hescape ih =>
    have hplain : c ≠ '"' := hquote
    rw [divide?, decide_eq_true hplain, ih (Option.map_eq_none_iff.1 h), Option.map_none]
    exact hescape

/-- A literal is part of a piece. -/
theorem divide?_literal {cs raw past : List Char} (h : Literal.cut? cs = some (raw, past))
    (depth : Nat) :
    divide? depth true cs = (divide? depth false past).map (pushAll (raw ++ ['"'])) := by
  fun_induction Literal.cut? cs generalizing raw past with
  | case1 => cases h
  | case2 cs =>
    obtain ⟨rfl, rfl⟩ := Prod.mk.inj (Option.some.inj h)
    rw [divide?]
    · rfl
    · simp
  | case3 c cs ih =>
    obtain ⟨⟨raw', past'⟩, hq, heq⟩ := Option.map_eq_some_iff.1 h
    obtain ⟨rfl, rfl⟩ := Prod.mk.inj heq
    rw [divide?, ih hq, Option.map_map]
    rfl
  | case4 c cs hquote hescape ih =>
    obtain ⟨⟨raw', past'⟩, hq, heq⟩ := Option.map_eq_some_iff.1 h
    obtain ⟨rfl, rfl⟩ := Prod.mk.inj heq
    have hplain : c ≠ '"' := hquote
    rw [divide?, decide_eq_true hplain, ih hq, Option.map_map]
    · rfl
    · exact hescape

theorem ends_pushAll (start : Nat) (cs : List Char) (p : Pieces) :
    ends start (pushAll cs p).toList = ends (start + width cs) p.toList := by
  simp only [pushAll, toList, ends, width_append, Nat.add_assoc]

theorem ends_push (start : Nat) (c : Char) (p : Pieces) :
    ends start (push c p).toList = ends (start + c.utf8Size) p.toList := by
  simp only [push, toList, ends, width_cons, Nat.add_assoc]

/-- Dividing a text ends its pieces at the marks outside literals. -/
theorem ends_divide? (start depth : Nat) (cs : List Char) :
    (divide? depth false cs).map (fun p => ends start p.toList) =
      (marks? depth (Literal.outside start cs)).map fun p => p.1 ++ [p.2] := by
  induction start, cs using Literal.outside_induction generalizing depth with
  | nil start =>
    rw [Literal.outside]
    rfl
  | unclosed start cs hcut =>
    rw [Literal.outside_unclosed start hcut, divide?_quote, divide?_unclosed hcut]
    rfl
  | literal start cs raw past hcut ih =>
    have hquote : Char.utf8Size '"' = 1 := rfl
    have hstart (p : Pieces) : ends start (push '"' (pushAll (raw ++ ['"']) p)).toList =
        ends (start + width raw + 2) p.toList := by
      rw [ends_push, ends_pushAll, width_append, width_cons, width_nil, hquote]
      congr 1
      omega
    rw [Literal.outside_literal start hcut, divide?_quote, divide?_literal hcut, Option.map_map,
      Option.map_map, ← ih depth]
    exact congrArg (Option.map · _) (funext hstart)
  | cons start c cs hc ih =>
    have hpush (depth : Nat) :
        ((divide? depth false cs).map (push c)).map (fun p => ends start p.toList) =
        (marks? depth (Literal.outside (start + c.utf8Size) cs)).map fun p => p.1 ++ [p.2] := by
      rw [Option.map_map, ← ih depth]
      exact congrArg (Option.map · _) (funext (ends_push start c))
    rw [Literal.outside_cons start hc, marks?.eq_def]
    dsimp only
    split_ifs with hopen hclose hcomma
    · subst hopen
      rw [divide?_open, hpush]
    · subst hclose
      cases depth with
      | zero => rfl
      | succ depth => exact hpush depth
    · obtain ⟨rfl, rfl⟩ := hcomma
      -- The piece in front of the comma is empty so far, so it ends where the comma is.
      have hcut (p : Pieces) : ends start (⟨[], p.toList, p.rest⟩ : Pieces).toList =
          start :: ends (start + Char.utf8Size ',') p.toList := rfl
      have hrest := congrArg (Option.map (start :: ·)) (ih 0)
      rw [Option.map_map, Option.map_map] at hrest
      rw [divide?, if_neg (by decide), if_neg (by decide), if_neg (by decide),
        if_pos ⟨rfl, rfl⟩, Option.map_map, Option.map_map]
      exact (congrArg (Option.map · _) (funext hcut)).trans hrest
    · rw [divide?_plain hc hopen hclose hcomma, hpush]

theorem not_atLevel_of_marks? {depth : Nat} {ms : List (Nat × Char)} (h : marks? depth ms = none)
    (n : Nat) :
    ¬AtLevel depth ms n ')' := by
  induction ms generalizing depth with
  | nil => exact fun hn => List.not_mem_nil hn.mem
  | cons m ms ih =>
    obtain ⟨k, c⟩ := m
    rw [marks?.eq_def] at h
    dsimp only at h
    split_ifs at h with hopen hclose hcomma
    · subst hopen
      rw [atLevel_open (by decide)]
      exact ih h
    · subst hclose
      cases depth with
      | zero => cases h
      | succ depth =>
        rw [atLevel_close]
        exact ih h
    · rw [atLevel_plain hopen hclose]
      rintro (⟨-, -, hc⟩ | hn)
      · exact hclose hc.symm
      · exact ih (Option.map_eq_none_iff.1 h) hn
    · rw [atLevel_plain hopen hclose]
      rintro (⟨-, -, hc⟩ | hn)
      · exact hclose hc.symm
      · exact ih h hn

theorem closedAt_of_marks? {depth : Nat} {ms : List (Nat × Char)}
    (hms : ms.Pairwise fun m n => m.1 < n.1) {cuts : List Nat} {close : Nat}
    (h : marks? depth ms = some (cuts, close)) :
    ClosedAt depth ms cuts close := by
  induction ms generalizing depth cuts with
  | nil => cases h
  | cons m ms ih =>
    obtain ⟨k, c⟩ := m
    obtain ⟨hk, htail⟩ := List.pairwise_cons.1 hms
    rw [marks?.eq_def] at h
    dsimp only at h
    split_ifs at h with hopen hclose hcomma
    · subst hopen
      exact (ih htail h).congr (fun n => atLevel_open (by decide)) fun n => atLevel_open (by decide)
    · subst hclose
      cases depth with
      | zero =>
        obtain ⟨rfl, rfl⟩ := Prod.mk.inj (Option.some.inj h)
        exact .close hk
      | succ depth => exact (ih htail h).congr (fun n => atLevel_close) fun n => atLevel_close
    · obtain ⟨rfl, rfl⟩ := hcomma
      obtain ⟨⟨cuts', close'⟩, hq, heq⟩ := Option.map_eq_some_iff.1 h
      obtain ⟨rfl, rfl⟩ := Prod.mk.inj heq
      exact (ih htail hq).comma hk
    · refine (ih htail h).congr (fun n => ?_) fun n => ?_
      · simp [atLevel_plain hopen hclose, Ne.symm hclose]
      · have hno : ¬(depth = 0 ∧ n = k ∧ ',' = c) := fun hc => hcomma ⟨hc.2.2.symm, hc.1⟩
        simp [atLevel_plain hopen hclose, hno]

/-- The last piece ends where the separator behind it stands. -/
theorem eq_of_ends {start n : Nat} {ns : List Nat} {piece : List Char} {pieces : List (List Char)}
    (h : ends start (piece :: pieces) = ns ++ [n]) :
    n + 1 = start + separatedWidth (piece :: pieces) := by
  induction pieces generalizing start piece ns with
  | nil =>
    have hsingle : [] ++ [start + width piece] = ns ++ [n] := h
    obtain ⟨-, hn⟩ := List.append_inj' hsingle rfl
    rw [← List.singleton_inj.1 hn]
    rfl
  | cons piece' pieces ih =>
    cases ns with
    | nil => cases (List.cons.inj h).2
    | cons m ns =>
      have hrest := ih (List.cons.inj h).2
      change n + 1 = start + (width piece + 1 + separatedWidth (piece' :: pieces))
      omega

end Pieces

namespace RawArgument

theorem dropBlankLast_cases (as : List RawArgument) :
    (∃ last, last.isBlank = true ∧ as = dropBlankLast as ++ [last]) ∨
      as = dropBlankLast as ∧ ∀ last, as.getLast? = some last → last.isBlank = false := by
  unfold dropBlankLast
  split
  next h =>
    obtain ⟨last, hlast, hblank⟩ := (Option.any_eq_true _ _).1 h
    exact .inl ⟨last, hblank, (List.dropLast_append_getLast? last hlast).symm⟩
  next h =>
    refine .inr ⟨rfl, fun last hlast => ?_⟩
    rw [hlast] at h
    exact eq_false_of_ne_true h

end RawArgument

namespace ArgumentList

/-- The spans between successive offsets, the separating character at each offset left out. -/
def gaps (start : Nat) : List Nat → List Span
  | [] => []
  | n :: ns => ⟨start + 1, n⟩ :: gaps n ns

def Fills (text : List Char) (s : Span) (a : RawArgument) : Prop :=
  a.start = s.start ∧ s.slice? text = some a.text

theorem fills_place {text past first : List Char} {more : List (List Char)} {openAt : Nat}
    (h : RestAt text (openAt + 1) ((first ++ more.flatMap fun piece => ',' :: piece) ++ past)) :
    List.Forall₂ (Fills text) (gaps openAt (Pieces.ends (openAt + 1) (first :: more)))
      (RawArgument.place (openAt + 1) (first :: more)) := by
  induction more generalizing openAt first with
  | nil =>
    rw [List.flatMap_nil, List.append_nil] at h
    exact .cons ⟨rfl, h.slice?⟩ .nil
  | cons piece more ih =>
    rw [List.append_assoc] at h
    have hnext := h.advance
    rw [List.flatMap_cons, List.cons_append, List.cons_append] at hnext
    exact .cons ⟨rfl, h.slice?⟩ (ih hnext.advance_cons)

/-- A list that is opened in front of `inner` is closed by the first parenthesis outside literals
before which the parentheses are balanced, and cut at the commas of which the same is true. Its
arguments are the texts in between, but for a blank one at the end. Where there is no such
parenthesis the list is an error. -/
theorem read_matching (function before inner : List Char) :
    let text := before ++ '(' :: inner
    let openAt := width before
    let ms := Literal.outside (openAt + 1) inner
    let e := (Fault.unclosedList (String.ofList function)).error ⟨openAt, openAt + 1⟩
    (∃ list cuts close pieces, read function openAt inner = .ok list ∧
      ClosedAt 0 ms cuts close ∧
      list.openAt = openAt ∧ list.closeAt = close ∧
      List.Forall₂ (Fills text) (gaps openAt (cuts ++ [close])) pieces ∧
      Span.slice? ⟨openAt + 1, close⟩ text = some ([','].intercalate (pieces.map (·.text))) ∧
      ((∃ last, last.isBlank = true ∧ pieces = list.arguments ++ [last]) ∨
        pieces = list.arguments ∧ ∀ last, pieces.getLast? = some last →
        last.isBlank = false)) ∨
    (∀ n, ¬AtLevel 0 ms n ')') ∧ read function openAt inner = .error e ∧
    e.kind = .unbalancedParentheses := by
  intro text openAt ms e
  have hends := Pieces.ends_divide? (openAt + 1) 0 inner
  cases hdivide : Pieces.divide? 0 false inner with
  | none =>
    rw [hdivide] at hends
    refine .inr ⟨Pieces.not_atLevel_of_marks? (Option.map_eq_none_iff.1 hends.symm), ?_, rfl⟩
    rw [read, hdivide]
  | some p =>
    rw [hdivide] at hends
    obtain ⟨⟨cuts, close⟩, hmarks, heq⟩ := Option.map_eq_some_iff.1 hends.symm
    have hclosed := Pieces.closedAt_of_marks? (Literal.pairwise_outside (openAt + 1) inner) hmarks
    have hinner : RestAt text (openAt + 1) (p.body ++ ')' :: p.rest) := by
      rw [← Pieces.text_eq, Pieces.text_divide? hdivide]
      exact ⟨before ++ ['('], by simp [text], by simp [openAt]; rfl⟩
    have hlast : close + 1 = openAt + 1 + Pieces.separatedWidth p.toList :=
      Pieces.eq_of_ends heq.symm
    have hbody := Pieces.separatedWidth_toList p
    have hslice := hinner.slice?
    have hstop : openAt + 1 + width p.body = close := by omega
    rw [hstop] at hslice
    refine .inl ⟨_, cuts, close, RawArgument.place (openAt + 1) p.toList, by rw [read, hdivide],
      hclosed, rfl, ?_, ?_, ?_, RawArgument.dropBlankLast_cases _⟩
    · dsimp only
      omega
    · rw [heq]
      exact fills_place hinner
    · rw [RawArgument.map_text_place, Pieces.toList, intercalate_comma]
      exact hslice

end ArgumentList

end SceneExpr
