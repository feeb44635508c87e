import SceneExpr.Json.Escape

namespace SceneExpr.Json

inductive Token where
  | openObject
  | closeObject
  | openArray
  | closeArray
  | colon
  | comma
  | null
  | bool (value : Bool)
  | number (lexeme : List Char)
  | string (body : List Char)
deriving DecidableEq, Repr

def Token.text : Token → List Char
  | .openObject => ['{']
  | .closeObject => ['}']
  | .openArray => ['[']
  | .closeArray => [']']
  | .colon => [':']
  | .comma => [',']
  | .null => ['n', 'u', 'l', 'l']
  | .bool true => ['t', 'r', 'u', 'e']
  | .bool false => ['f', 'a', 'l', 's', 'e']
  | .number lexeme => lexeme
  | .string body => '"' :: (body ++ ['"'])

/-- Space, tab, line feed and carriage return may stand between tokens. -/
def isGap (c : Char) : Bool := c = ' ' || c = '\t' || c = '\n' || c = '\r'

/-- Two parts of a text: what was taken, and the rest. -/
abbrev Cut := List Char × List Char

def Cut.push (c : Char) (p : Cut) : Cut := (c :: p.1, p.2)

/-- The body of a string and what follows its closing quote. Raw controls and unknown escapes are
refused. -/
def stringBody? : List Char → Option Cut
  | [] => none
  | '"' :: cs => some ([], cs)
  | '\\' :: 'u' :: a :: b :: c :: d :: cs =>
    if (unit? a b c d).isSome then
      (stringBody? cs).map fun p => ('\\' :: 'u' :: a :: b :: c :: d :: p.1, p.2)
    else none
  | '\\' :: e :: cs =>
    if (shortEscape? e).isSome then (stringBody? cs).map fun p => ('\\' :: e :: p.1, p.2) else none
  | c :: cs => if c.toNat < 0x20 then none else (stringBody? cs).map (Cut.push c)

def digits? (cs : List Char) : Option Cut :=
  match cs.takeWhile Char.isDigit with
  | [] => none
  | ds => some (ds, cs.dropWhile Char.isDigit)

/-- A whole number has no leading zeros. -/
def whole? : List Char → Option Cut
  | '0' :: cs => some (['0'], cs)
  | cs => digits? cs

def fraction? : List Char → Option Cut
  | '.' :: cs => (digits? cs).map (Cut.push '.')
  | cs => some ([], cs)

def exponentSign : List Char → Cut
  | '+' :: cs => (['+'], cs)
  | '-' :: cs => (['-'], cs)
  | cs => ([], cs)

def exponent? : List Char → Option Cut
  | c :: cs =>
    if c = 'e' ∨ c = 'E' then
      let sign := exponentSign cs
      (digits? sign.2).map fun p => (c :: (sign.1 ++ p.1), p.2)
    else some ([], c :: cs)
  | [] => some ([], [])

def unsigned? (cs : List Char) : Option Cut := do
  let whole ← whole? cs
  let fraction ← fraction? whole.2
  let exponent ← exponent? fraction.2
  return (whole.1 ++ fraction.1 ++ exponent.1, exponent.2)

def number? : List Char → Option Cut
  | '-' :: cs => (unsigned? cs).map (Cut.push '-')
  | cs => unsigned? cs

def token? : List Char → Option (Token × List Char)
  | '{' :: cs => some (.openObject, cs)
  | '}' :: cs => some (.closeObject, cs)
  | '[' :: cs => some (.openArray, cs)
  | ']' :: cs => some (.closeArray, cs)
  | ':' :: cs => some (.colon, cs)
  | ',' :: cs => some (.comma, cs)
  | 'n' :: 'u' :: 'l' :: 'l' :: cs => some (.null, cs)
  | 't' :: 'r' :: 'u' :: 'e' :: cs => some (.bool true, cs)
  | 'f' :: 'a' :: 'l' :: 's' :: 'e' :: cs => some (.bool false, cs)
  | '"' :: cs => (stringBody? cs).map fun p => (.string p.1, p.2)
  | cs => (number? cs).map fun p => (.number p.1, p.2)

theorem stringBody?_eq {cs : List Char} {p : Cut} (h : stringBody? cs = some p) :
    p.1 ++ '"' :: p.2 = cs := by
  fun_induction stringBody? cs generalizing p with
  | case1 => simp at h
  | case2 cs =>
    obtain rfl := Option.some.inj h
    rfl
  | case3 a b c d cs hu ih =>
    obtain ⟨q, hq, rfl⟩ := Option.map_eq_some_iff.1 h
    simp [ih hq]
  | case4 => simp at h
  | case5 e cs hn he ih =>
    obtain ⟨q, hq, rfl⟩ := Option.map_eq_some_iff.1 h
    simp [ih hq]
  | case6 => simp at h
  | case7 => simp at h
  | case8 c cs _ _ _ _ ih =>
    obtain ⟨q, hq, rfl⟩ := Option.map_eq_some_iff.1 h
    simp [Cut.push, ih hq]

theorem digits?_eq {cs : List Char} {p : Cut} (h : digits? cs = some p) :
    p.1 ++ p.2 = cs ∧ p.1 ≠ [] := by
  unfold digits? at h
  split at h
  · simp at h
  next hne =>
    obtain rfl := Option.some.inj h
    exact ⟨List.takeWhile_append_dropWhile, hne⟩

theorem whole?_eq {cs : List Char} {p : Cut} (h : whole? cs = some p) :
    p.1 ++ p.2 = cs ∧ p.1 ≠ [] := by
  unfold whole? at h
  split at h
  · obtain rfl := Option.some.inj h
    simp
  · exact digits?_eq h

theorem fraction?_eq {cs : List Char} {p : Cut} (h : fraction? cs = some p) :
    p.1 ++ p.2 = cs := by
  unfold fraction? at h
  split at h
  · obtain ⟨q, hq, rfl⟩ := Option.map_eq_some_iff.1 h
    simp [Cut.push, (digits?_eq hq).1]
  · obtain rfl := Option.some.inj h
    simp

theorem exponentSign_eq (cs : List Char) : (exponentSign cs).1 ++ (exponentSign cs).2 = cs := by
  unfold exponentSign
  split <;> simp

theorem exponent?_eq {cs : List Char} {p : Cut} (h : exponent? cs = some p) :
    p.1 ++ p.2 = cs := by
  unfold exponent? at h
  split at h
  next c cs =>
    split at h
    · obtain ⟨q, hq, rfl⟩ := Option.map_eq_some_iff.1 h
      simp [(digits?_eq hq).1, exponentSign_eq]
    · obtain rfl := Option.some.inj h
      simp
  · obtain rfl := Option.some.inj h
    simp

theorem unsigned?_eq {cs : List Char} {p : Cut} (h : unsigned? cs = some p) :
    p.1 ++ p.2 = cs ∧ p.1 ≠ [] := by
  simp only [unsigned?, Option.bind_eq_bind, Option.bind_eq_some_iff, Option.pure_def,
    Option.some.injEq] at h
  obtain ⟨w, hw, f, hf, e, he, rfl⟩ := h
  simp [exponent?_eq he, fraction?_eq hf, (whole?_eq hw).1, (whole?_eq hw).2]

theorem number?_eq {cs : List Char} {p : Cut} (h : number? cs = some p) :
    p.1 ++ p.2 = cs ∧ p.1 ≠ [] := by
  unfold number? at h
  split at h
  · obtain ⟨q, hq, rfl⟩ := Option.map_eq_some_iff.1 h
    simp [Cut.push, (unsigned?_eq hq).1]
  · exact unsigned?_eq h

/-- A token is read from its own spelling, which is never empty. -/
theorem token?_eq {cs rest : List Char} {t : Token} (h : token? cs = some (t, rest)) :
    t.text ++ rest = cs ∧ t.text ≠ [] := by
  unfold token? at h
  split at h
  case h_10 cs =>
    obtain ⟨q, hq, hp⟩ := Option.map_eq_some_iff.1 h
    obtain ⟨rfl, rfl⟩ := Prod.mk.inj hp
    simp [Token.text, stringBody?_eq hq]
  case h_11 cs =>
    obtain ⟨q, hq, hp⟩ := Option.map_eq_some_iff.1 h
    obtain ⟨rfl, rfl⟩ := Prod.mk.inj hp
    exact number?_eq hq
  all_goals
    obtain ⟨rfl, rfl⟩ := Prod.mk.inj (Option.some.inj h)
    simp [Token.text]

theorem token?_length {cs rest : List Char} {t : Token} (h : token? cs = some (t, rest)) :
    rest.length < cs.length := by
  obtain ⟨rfl, hne⟩ := token?_eq h
  have := List.length_pos_iff.2 hne
  simp only [List.length_append]
  omega

def tokens? : List Char → Option (List Token)
  | [] => some []
  | c :: cs =>
    if isGap c then tokens? cs
    else
      match _h : token? (c :: cs) with
      | none => none
      | some (t, rest) => (tokens? rest).map (t :: ·)
termination_by cs => cs.length
decreasing_by
  · simp
  · exact token?_length _h

end SceneExpr.Json
