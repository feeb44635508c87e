import SceneExpr.Fault
import SceneExpr.Text.Width

namespace SceneExpr.Literal

/-- The text up to the first quote that is not escaped, and the text past that quote. -/
def cut? : List Char → Option (List Char × List Char)
  | [] => none
  | '"' :: cs => some ([], cs)
  | '\\' :: c :: cs => (cut? cs).map fun p => ('\\' :: c :: p.1, p.2)
  | c :: cs => (cut? cs).map fun p => (c :: p.1, p.2)

theorem cut?_eq {cs : List Char} {p : List Char × List Char} (h : cut? cs = some p) :
    p.1 ++ '"' :: p.2 = cs := by
  fun_induction cut? cs generalizing p with
  | case1 => simp at h
  | case2 cs =>
    obtain rfl := Option.some.inj h
    rfl
  | case3 c cs ih =>
    obtain ⟨q, hq, rfl⟩ := Option.map_eq_some_iff.1 h
    simp [ih hq]
  | case4 c cs _ _ ih =>
    obtain ⟨q, hq, rfl⟩ := Option.map_eq_some_iff.1 h
    simp [ih hq]

theorem cut?_length_lt {cs : List Char} {p : List Char × List Char} (h : cut? cs = some p) :
    p.2.length < cs.length := by
  rw [← cut?_eq h]
  simp only [List.length_append, List.length_cons]
  omega

/-- Turns each escaped quote into a quote and keeps every other backslash pair as written. -/
def unescape : List Char → List Char
  | [] => []
  | '\\' :: '"' :: cs => '"' :: unescape cs
  | '\\' :: c :: cs => '\\' :: c :: unescape cs
  | c :: cs => c :: unescape cs

end SceneExpr.Literal
