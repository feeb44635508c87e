import SceneExpr.Json.Record
import SceneExpr.Proofs.Json.Spelling

namespace SceneExpr.Json

/-- The code unit of a control is written with two digits of its own. -/
theorem unit?_hexDigit :
    ∀ n < 0x20, unit? '0' '0' (hexDigit (n / 16)) (hexDigit (n % 16)) = some n := by
  decide

theorem isBody_escapeChar_append (c : Char) {cs : List Char} (h : IsBody cs) :
    IsBody (escapeChar c ++ cs) := by
  unfold escapeChar
  split
  case h_8 hquote hslash _ _ _ _ _ =>
    split
    next hcontrol => exact .unit (by rw [unit?_hexDigit c.toNat hcontrol]; rfl) h
    next hcontrol => exact .char hquote hslash hcontrol h
  all_goals exact .escape rfl h

theorem isBody_escape (cs : List Char) : IsBody (escape cs) := by
  induction cs with
  | nil => exact .nil
  | cons c cs ih => exact isBody_escapeChar_append c ih

theorem unescapeFrom_unit {a b c d : Char} {n : Nat} (h : unit? a b c d = some n) (hn : n < 0xD800)
    (cs : List Char) :
    unescapeFrom none ('\\' :: 'u' :: a :: b :: c :: d :: cs) =
      (unescapeFrom none cs).map (Char.ofNat n :: ·) := by
  have hhigh : isHighSurrogate n = false := by
    simp only [isHighSurrogate, Bool.and_eq_false_iff, decide_eq_false_iff_not]
    omega
  have hlow : isLowSurrogate n = false := by
    simp only [isLowSurrogate, Bool.and_eq_false_iff, decide_eq_false_iff_not]
    omega
  simp [unescapeFrom, h, hhigh, hlow]

theorem unescapeFrom_escape {e c : Char} (h : shortEscape? e = some c) (cs : List Char) :
    unescapeFrom none ('\\' :: e :: cs) = (unescapeFrom none cs).map (c :: ·) := by
  rw [unescapeFrom]
  · -- The letter of a code unit is no short escape.
    rintro _ _ _ _ _ rfl
    cases h
  · exact h

theorem unescapeFrom_plain {c : Char} (h : c ≠ '\\') (cs : List Char) :
    unescapeFrom none (c :: cs) = (unescapeFrom none cs).map (c :: ·) := by
  rw [unescapeFrom]
  · rfl
  · exact fun _ _ _ _ _ hc => absurd hc h
  · exact fun _ _ hc => absurd hc h

theorem unescapeFrom_escapeChar_append (c : Char) (cs : List Char) :
    unescapeFrom none (escapeChar c ++ cs) = (unescapeFrom none cs).map (c :: ·) := by
  unfold escapeChar
  split
  case h_8 hquote hslash _ _ _ _ _ =>
    split
    next hcontrol =>
      have hunit := unescapeFrom_unit (unit?_hexDigit c.toNat hcontrol) (by omega) cs
      rwa [Char.ofNat_toNat] at hunit
    next => exact unescapeFrom_plain hslash cs
  all_goals exact unescapeFrom_escape rfl cs

/-- A text is read back from between its quotes. -/
theorem unescape?_escape (cs : List Char) : unescape? (escape cs) = some cs := by
  induction cs with
  | nil => rfl
  | cons c cs ih =>
    change unescapeFrom none (escapeChar c ++ escape cs) = _
    rw [unescapeFrom_escapeChar_append]
    exact congrArg (Option.map (c :: ·)) ih

end SceneExpr.Json
