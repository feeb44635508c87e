import SceneExpr.Text.Blank
import SceneExpr.Diagnostic.Context

namespace SceneExpr.Template

/-- What a placeholder stands for; a missing key stands for nothing. -/
def fill (ctx : Context) (key : List Char) : List Char :=
  ((ctx.find? (String.ofList (trim key))).getD "").toList

/-- Renders a template in one pass; `key` is the part read so far of a placeholder that is open. -/
def renderFrom (ctx : Context) : Option (List Char) → List Char → List Char
  | none, [] => []
  | some key, [] => '{' :: key
  | none, c :: cs => if c = '{' then renderFrom ctx (some []) cs else c :: renderFrom ctx none cs
  | some key, c :: cs =>
    if c = '}' then fill ctx key ++ renderFrom ctx none cs
    else renderFrom ctx (some (key ++ [c])) cs

section Copied

variable {ctx : Context} {c : Char}

theorem renderFrom_cons (h : c ≠ '{') (cs : List Char) :
    renderFrom ctx none (c :: cs) = c :: renderFrom ctx none cs := by
  rw [renderFrom, if_neg h]

theorem renderFrom_some_cons (h : c ≠ '}') (key cs : List Char) :
    renderFrom ctx (some key) (c :: cs) = renderFrom ctx (some (key ++ [c])) cs := by
  rw [renderFrom, if_neg h]

end Copied

def render (ctx : Context) (template : String) : String :=
  String.ofList (renderFrom ctx none template.toList)

/-- The texts between an opening brace and the closing brace next to it, in order. -/
def holes : List Char → List (List Char)
  | [] => []
  | c :: cs =>
    if c = '{' then
      if '}' ∈ cs then cs.takeWhile (· ≠ '}') :: holes (cs.dropWhile (· ≠ '}')) else []
    else holes cs
termination_by cs => cs.length
decreasing_by
  · exact Nat.lt_succ_of_le (List.dropWhile_sublist _).length_le
  · simp

theorem holes_cons {c : Char} (h : c ≠ '{') (cs : List Char) : holes (c :: cs) = holes cs := by
  rw [holes, if_neg h]

def placeholders (template : String) : List String :=
  ((((holes template.toList).map trim).filter (· ≠ [])).map String.ofList).eraseDups

end SceneExpr.Template
