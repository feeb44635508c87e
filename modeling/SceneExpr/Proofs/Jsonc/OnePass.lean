import SceneExpr.Proofs.Jsonc.Decorated

namespace SceneExpr.Jsonc

def withdraw (out : List Char) (comma : Option Nat) : List Char :=
  match comma with
  | none => out
  | some i => out.eraseIdx i

mutual

/-- Goes on behind some output. The place is that of a comma with nothing but trivia behind it. -/
def onePass (out : List Char) (comma : Option Nat) : List Char → List Char
  | [] => out
  | '"' :: cs => passLiteral (out ++ ['"']) cs
  | '/' :: '/' :: cs => passLine out comma cs
  | '/' :: '*' :: cs => passBlock out comma cs
  | ',' :: cs => onePass (out ++ [',']) (some out.length) cs
  | c :: cs =>
    if c = '}' || c = ']' then onePass (withdraw out comma ++ [c]) none cs
    else onePass (out ++ [c]) (if isBlank c then comma else none) cs
termination_by structural cs => cs

def passLiteral (out : List Char) : List Char → List Char
  | [] => out
  | '\\' :: c :: cs => passLiteral (out ++ ['\\', c]) cs
  | '"' :: cs => onePass (out ++ ['"']) none cs
  | c :: cs => passLiteral (out ++ [c]) cs
termination_by structural cs => cs

def passLine (out : List Char) (comma : Option Nat) : List Char → List Char
  | [] => out
  | c :: cs => if c = '\n' then onePass (out ++ [c]) comma cs else passLine out comma cs
termination_by structural cs => cs

def passBlock (out : List Char) (comma : Option Nat) : List Char → List Char
  | [] => out
  | '*' :: '/' :: cs => onePass out comma cs
  | _ :: cs => passBlock out comma cs
termination_by structural cs => cs

end

/-- The place is that of a character of the output. -/
def Within (out : List Char) (comma : Option Nat) : Prop := ∀ i ∈ comma, i < out.length

theorem Within.append {out : List Char} {comma : Option Nat} (h : Within out comma)
    (more : List Char) :
    Within (out ++ more) comma := by
  intro i hi
  rw [List.length_append]
  exact Nat.lt_add_right _ (h i hi)

theorem withdraw_append {out : List Char} {comma : Option Nat} (h : Within out comma)
    (more : List Char) :
    withdraw (out ++ more) comma = withdraw out comma ++ more := by
  cases comma with
  | none => rfl
  | some i => exact List.eraseIdx_append_of_lt_length (h i rfl) more

theorem withdraw_comma (out : List Char) : withdraw (out ++ [',']) (some out.length) = out := by
  simp [withdraw, List.eraseIdx_append_of_length_le]

/-- Behind the output, either with the comma or without it, stands what is left of the text. -/
theorem onePass_behind :
    (∀ out comma cs, Within out comma →
      onePass out comma cs = (if closes cs then withdraw out comma else out) ++ strip cs) ∧
    (∀ out comma cs, Within out comma → passBlock out comma cs =
      (if closesPastBlock cs then withdraw out comma else out) ++ stripBlock cs) ∧
    (∀ out comma cs, Within out comma → passLine out comma cs =
      (if closesPastLine cs then withdraw out comma else out) ++ stripLine cs) ∧
    ∀ out cs, passLiteral out cs = out ++ stripLiteral cs := by
  apply onePass.mutual_induct
  case case1 => exact fun out comma _ => (List.append_nil out).symm
  case case2 =>
    intro out comma cs ih h
    have hcloses : closes ('"' :: cs) = false := closes_cons (by decide) cs
    rw [onePass, ih, hcloses, strip, List.append_assoc]
    rfl
  case case3 =>
    intro out comma cs ih h
    rw [onePass, ih h, closes, strip]
  case case4 =>
    intro out comma cs ih h
    rw [onePass, ih h, closes, strip]
  case case5 =>
    intro out comma cs ih h
    have hcloses : closes (',' :: cs) = false := closes_cons (by decide) cs
    rw [onePass, ih (by simp [Within]), withdraw_comma, hcloses, strip]
    split <;> simp
  case case6 =>
    intro out comma c cs hquote hline hblock hcomma hbracket ih h
    have hblank : isBlank c = false := by
      simp only [Bool.or_eq_true, decide_eq_true_eq] at hbracket
      rcases hbracket with rfl | rfl <;> decide
    rw [onePass, if_pos hbracket, ih (by simp [Within]), closes, hblank, strip]
    · simp [withdraw, hbracket]
    all_goals assumption
  case case7 =>
    intro out comma c cs hquote hline hblock hcomma hbracket ih h
    rw [onePass, if_neg hbracket, closes, strip]
    · cases hblank : isBlank c with
      | true =>
        rw [hblank, if_pos rfl] at ih
        rw [if_pos rfl, if_pos rfl, ih (h.append _), withdraw_append h]
        split <;> simp
      | false =>
        rw [hblank, if_neg Bool.false_ne_true] at ih
        rw [if_neg Bool.false_ne_true, if_neg Bool.false_ne_true, if_neg hbracket,
          ih (by simp [Within])]
        simp [withdraw]
    all_goals assumption
  case case8 => exact fun out comma _ => (List.append_nil out).symm
  case case9 =>
    intro out comma cs ih h
    rw [passBlock, ih h, closesPastBlock, stripBlock]
  case case10 =>
    intro out comma c cs hopen ih h
    rw [passBlock, ih h, closesPastBlock, stripBlock]
    all_goals assumption
  case case11 => exact fun out comma _ => (List.append_nil out).symm
  case case12 =>
    intro out comma cs ih h
    rw [passLine, if_pos rfl, ih (h.append _), withdraw_append h, closesPastLine, if_pos rfl,
      stripLine, if_pos rfl]
    split <;> simp
  case case13 =>
    intro out comma c cs hc ih h
    rw [passLine, if_neg hc, ih h, closesPastLine, if_neg hc, stripLine, if_neg hc]
  case case14 => exact fun out => (List.append_nil out).symm
  case case15 =>
    intro out c cs ih
    rw [passLiteral, ih, stripLiteral, List.append_assoc]
    rfl
  case case16 =>
    intro out cs ih
    rw [passLiteral, ih (by simp [Within]), stripLiteral]
    simp [withdraw]
  case case17 =>
    intro out c cs hescape hquote ih
    rw [passLiteral, ih, stripLiteral, List.append_assoc]
    · rfl
    all_goals assumption

/-- Looking ahead is remembering: the one pass gives the text that `strip` gives. -/
theorem onePass_eq_strip (cs : List Char) : onePass [] none cs = strip cs := by
  rw [onePass_behind.1 [] none cs (by simp [Within])]
  simp [withdraw]

end SceneExpr.Jsonc
