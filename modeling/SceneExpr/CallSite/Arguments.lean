import SceneExpr.Fault
import SceneExpr.Text.Blank
import SceneExpr.Text.Width

namespace SceneExpr

/-- The pieces of an argument list, and the text past its closing parenthesis. -/
structure Pieces where
  first : List Char
  more : List (List Char)
  rest : List Char

namespace Pieces

def push (c : Char) (p : Pieces) : Pieces := { p with first := c :: p.first }

def toList (p : Pieces) : List (List Char) := p.first :: p.more

def separatedWidth : List (List Char) → Nat
  | [] => 0
  | piece :: pieces => width piece + 1 + separatedWidth pieces

def text (p : Pieces) : List Char :=
  p.first ++ (p.more.flatMap fun piece => ',' :: piece) ++ ')' :: p.rest

/-- Divides the text behind `depth` inner parentheses; the flag tells whether a literal is open. -/
def divide? : (depth : Nat) → (quoted : Bool) → List Char → Option Pieces
  | _, _, [] => none
  | depth, true, '\\' :: c :: cs => (divide? depth true cs).map fun p => (p.push c).push '\\'
  | depth, true, c :: cs => (divide? depth (c ≠ '"') cs).map (push c)
  | depth, false, c :: cs =>
    if c = '"' then (divide? depth true cs).map (push c)
    else if c = '(' then (divide? (depth + 1) false cs).map (push c)
    else if c = ')' then
      match depth with
      | 0 => some ⟨[], [], cs⟩
      | depth + 1 => (divide? depth false cs).map (push c)
    else if c = ',' ∧ depth = 0 then
      (divide? depth false cs).map fun p => ⟨[], p.toList, p.rest⟩
    else (divide? depth false cs).map (push c)

theorem text_push (c : Char) (p : Pieces) : (p.push c).text = c :: p.text := rfl

theorem text_divide? {depth : Nat} {quoted : Bool} {cs : List Char} {p : Pieces}
    (h : divide? depth quoted cs = some p) : p.text = cs := by
  fun_induction divide? depth quoted cs generalizing p with
  | case1 => simp at h
  | case2 depth c cs ih =>
    obtain ⟨q, hq, rfl⟩ := Option.map_eq_some_iff.1 h
    simp [text_push, ih hq]
  | case3 depth c cs _ ih =>
    obtain ⟨q, hq, rfl⟩ := Option.map_eq_some_iff.1 h
    simp [text_push, ih hq]
  | case4 depth cs ih =>
    obtain ⟨q, hq, rfl⟩ := Option.map_eq_some_iff.1 h
    simp [text_push, ih hq]
  | case5 depth cs _ ih =>
    obtain ⟨q, hq, rfl⟩ := Option.map_eq_some_iff.1 h
    simp [text_push, ih hq]
  | case6 cs =>
    obtain rfl := Option.some.inj h
    simp [text]
  | case7 cs _ _ depth ih =>
    obtain ⟨q, hq, rfl⟩ := Option.map_eq_some_iff.1 h
    simp [text_push, ih hq]
  | case8 depth c cs _ _ _ hc ih =>
    obtain ⟨q, hq, rfl⟩ := Option.map_eq_some_iff.1 h
    simp [text, toList, hc.1, ← ih hq]
  | case9 depth c cs _ _ _ _ ih =>
    obtain ⟨q, hq, rfl⟩ := Option.map_eq_some_iff.1 h
    simp [text_push, ih hq]

/-- The first piece of a list, whether or not the list is closed. -/
def first? : (depth : Nat) → (quoted : Bool) → List Char → Option (List Char)
  | _, _, [] => none
  | depth, true, '\\' :: c :: cs => (first? depth true cs).map fun piece => '\\' :: c :: piece
  | depth, true, c :: cs => (first? depth (c ≠ '"') cs).map (c :: ·)
  | depth, false, c :: cs =>
    if c = '"' then (first? depth true cs).map (c :: ·)
    else if c = '(' then (first? (depth + 1) false cs).map (c :: ·)
    else if c = ')' then
      match depth with
      | 0 => some []
      | depth + 1 => (first? depth false cs).map (c :: ·)
    else if c = ',' ∧ depth = 0 then some []
    else (first? depth false cs).map (c :: ·)

end Pieces

/-- An argument as written, blanks included, and its offset in the whole expression. -/
structure RawArgument where
  text : List Char
  start : Nat
deriving DecidableEq, Repr

namespace RawArgument

def isBlank (a : RawArgument) : Bool := a.text.all SceneExpr.isBlank

def place (start : Nat) : List (List Char) → List RawArgument
  | [] => []
  | text :: texts => ⟨text, start⟩ :: place (start + width text + 1) texts

def dropBlankLast (as : List RawArgument) : List RawArgument :=
  if as.getLast?.any isBlank then as.dropLast else as

end RawArgument

structure ArgumentList where
  openAt : Nat
  closeAt : Nat
  arguments : List RawArgument
  rest : List Char

namespace ArgumentList

/-- The list whose opening parenthesis stands at `openAt`, in front of `inner`. -/
def read (function : List Char) (openAt : Nat) (inner : List Char) :
    Except ParseError ArgumentList :=
  match Pieces.divide? 0 false inner with
  | none => .error ((Fault.unclosedList (String.ofList function)).error ⟨openAt, openAt + 1⟩)
  | some p => .ok {
      openAt := openAt
      closeAt := openAt + Pieces.separatedWidth p.toList
      arguments := RawArgument.dropBlankLast (RawArgument.place (openAt + 1) p.toList)
      rest := p.rest }

theorem rest_length_lt {function inner : List Char} {openAt : Nat} {list : ArgumentList}
    (h : read function openAt inner = .ok list) : list.rest.length < inner.length := by
  unfold read at h
  split at h
  · simp at h
  next p hp =>
    obtain rfl := Except.ok.inj h
    have := congrArg List.length (Pieces.text_divide? hp)
    simp only [Pieces.text, List.length_append, List.length_cons] at this
    dsimp only
    omega

end ArgumentList

end SceneExpr
