import SceneExpr.Proofs.Jsonc.Decorated
import SceneExpr.Proofs.Literal.Value

namespace SceneExpr.Jsonc

/-- A literal has its quotes, and one that is not closed is the rest of the document. -/
inductive Part where
  | comment
  | literal (text : List Char)
  | char (c : Char)
deriving DecidableEq, Repr

def pastBlock : List Char → List Char
  | [] => []
  | '*' :: '/' :: cs => cs
  | _ :: cs => pastBlock cs

theorem length_pastBlock_le (cs : List Char) : (pastBlock cs).length ≤ cs.length := by
  fun_induction pastBlock cs with
  | case1 => exact Nat.le_refl _
  | case2 cs => exact Nat.le_add_right _ 2
  | case3 c cs _ ih => exact Nat.le_succ_of_le ih

/-- The parts of a document, in order. A line comment does not include its line feed. -/
def parts : List Char → List Part
  | [] => []
  | '"' :: cs =>
    match _h : Literal.cut? cs with
    | none => [.literal ('"' :: cs)]
    | some (raw, past) => .literal ('"' :: (raw ++ ['"'])) :: parts past
  | '/' :: '/' :: cs => .comment :: parts (cs.dropWhile (· ≠ '\n'))
  | '/' :: '*' :: cs => .comment :: parts (pastBlock cs)
  | c :: cs => .char c :: parts cs
termination_by cs => cs.length
decreasing_by
  · exact Nat.lt_succ_of_lt (Literal.cut?_length_lt _h)
  · exact Nat.lt_succ_of_lt (Nat.lt_succ_of_le (List.dropWhile_sublist _).length_le)
  · exact Nat.lt_succ_of_lt (Nat.lt_succ_of_le (length_pastBlock_le cs))
  · exact Nat.lt_succ_self _

namespace Part

def text (gap : List Char) : Part → List Char
  | .comment => gap
  | .literal text => text
  | .char c => [c]

end Part

def fill (gap : List Char) (ps : List Part) : List Char := ps.flatMap (Part.text gap)

/-- Whether the next part that is neither blank nor a comment closes an array or an object. -/
def closesFirst : List Part → Bool
  | [] => false
  | .comment :: ps => closesFirst ps
  | .literal _ :: _ => false
  | .char c :: ps => if isBlank c then closesFirst ps else c = '}' || c = ']'

/-- The parts without comments and without commas in front of closing brackets. -/
def prune : List Part → List Char
  | [] => []
  | .comment :: ps => prune ps
  | .literal text :: ps => text ++ prune ps
  | .char c :: ps => if c = ',' ∧ closesFirst ps = true then prune ps else c :: prune ps

/-- How literals and other characters may follow one another. -/
inductive Lexed : List Part → Prop where
  | nil : Lexed []
  | comment {ps : List Part} : Lexed ps → Lexed (.comment :: ps)
  | char {c : Char} {ps : List Part} : c ≠ '"' → Lexed ps → Lexed (.char c :: ps)
  | literal {raw : List Char} {ps : List Part} : Literal.Paired raw → Lexed ps →
      Lexed (.literal ('"' :: (raw ++ ['"'])) :: ps)
  | unclosed {cs : List Char} : Literal.cut? cs = none → Lexed [.literal ('"' :: cs)]

theorem lexed_parts (cs : List Char) : Lexed (parts cs) := by
  fun_induction parts cs with
  | case1 => exact .nil
  | case2 cs hcut => exact .unclosed hcut
  | case3 cs raw past hcut ih => exact .literal (.of_cut? hcut) ih
  | case4 cs ih => exact .comment ih
  | case5 cs ih => exact .comment ih
  | case6 c cs hquote _ _ ih => exact .char hquote ih

section Strip

theorem stripLiteral_eq (cs : List Char) : stripLiteral cs =
    match Literal.cut? cs with
    | none => cs
    | some (raw, past) => raw ++ '"' :: strip past := by
  fun_induction Literal.cut? cs with
  | case1 => rfl
  | case2 cs => rfl
  | case3 c cs ih =>
    rw [stripLiteral, ih]
    cases Literal.cut? cs <;> rfl
  | case4 c cs hquote hescape ih =>
    rw [stripLiteral, ih]
    · cases Literal.cut? cs <;> rfl
    · exact hescape
    · exact hquote

theorem stripLine_eq (cs : List Char) : stripLine cs = strip (cs.dropWhile (· ≠ '\n')) := by
  induction cs with
  | nil => rfl
  | cons c cs ih =>
    rw [stripLine]
    split
    next hc =>
      subst hc
      rfl
    next hc => rw [List.dropWhile_cons_of_pos (by simpa using hc), ih]

theorem closesPastLine_eq (cs : List Char) :
    closesPastLine cs = closes (cs.dropWhile (· ≠ '\n')) := by
  induction cs with
  | nil => rfl
  | cons c cs ih =>
    rw [closesPastLine]
    split
    next hc =>
      subst hc
      rfl
    next hc => rw [List.dropWhile_cons_of_pos (by simpa using hc), ih]

theorem stripBlock_eq (cs : List Char) : stripBlock cs = strip (pastBlock cs) := by
  fun_induction pastBlock cs with
  | case1 => rfl
  | case2 cs => rfl
  | case3 c cs hopen ih =>
    rw [stripBlock, ih]
    exact hopen

theorem closesPastBlock_eq (cs : List Char) : closesPastBlock cs = closes (pastBlock cs) := by
  fun_induction pastBlock cs with
  | case1 => rfl
  | case2 cs => rfl
  | case3 c cs hopen ih =>
    rw [closesPastBlock, ih]
    exact hopen

theorem closes_eq_closesFirst (cs : List Char) : closes cs = closesFirst (parts cs) := by
  fun_induction parts cs with
  | case1 => rfl
  | case2 cs hcut => exact closes_cons (by decide) cs
  | case3 cs raw past hcut ih => exact closes_cons (by decide) cs
  | case4 cs ih => rw [closes, closesPastLine_eq, ih, closesFirst]
  | case5 cs ih => rw [closes, closesPastBlock_eq, ih, closesFirst]
  | case6 c cs _ hline hblock ih =>
    rw [closes, ih, closesFirst]
    · exact hline
    · exact hblock

/-- Stripping a document drops parts of it. -/
theorem strip_eq_prune (cs : List Char) : strip cs = prune (parts cs) := by
  fun_induction parts cs with
  | case1 => rfl
  | case2 cs hcut =>
    rw [strip, stripLiteral_eq, hcut, prune, prune, List.append_nil]
  | case3 cs raw past hcut ih =>
    rw [strip, stripLiteral_eq, hcut, prune, ← ih]
    simp
  | case4 cs ih => rw [strip, stripLine_eq, ih, prune]
  | case5 cs ih => rw [strip, stripBlock_eq, ih, prune]
  | case6 c cs hquote hline hblock ih =>
    by_cases hcomma : c = ','
    · subst hcomma
      rw [strip, prune, closes_eq_closesFirst, ih]
      simp
    · rw [strip, prune, if_neg (fun h => hcomma h.1), ih]
      · exact hquote
      · exact hline
      · exact hblock
      · exact hcomma

end Strip

end SceneExpr.Jsonc
