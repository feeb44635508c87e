import SceneExpr.Proofs.Text.Slice

namespace SceneExpr

/-- The text past its first `n` octets. -/
def RestAt (text : List Char) (n : Nat) (rest : List Char) : Prop :=
  ∃ front, text = front ++ rest ∧ width front = n

namespace RestAt

variable {text rest l r : List Char} {n : Nat}

theorem whole (text : List Char) : RestAt text 0 text := ⟨[], rfl, rfl⟩

theorem advance (h : RestAt text n (l ++ r)) : RestAt text (n + width l) r := by
  obtain ⟨front, rfl, rfl⟩ := h
  exact ⟨front ++ l, by rw [List.append_assoc], width_append front l⟩

theorem advance_cons {c : Char} (h : RestAt text n (c :: r)) : RestAt text (n + c.utf8Size) r :=
  advance (l := [c]) h

/-- A first part of a rest is a slice of the text. -/
theorem slice? (h : RestAt text n (l ++ r)) : Span.slice? ⟨n, n + width l⟩ text = some l := by
  obtain ⟨front, rfl, rfl⟩ := h
  exact Span.slice?_eq_some_iff.2 ⟨front, r, (List.append_assoc front l r).symm, rfl, rfl⟩

/-- A rest within a part of the text is a rest of the text, further right. -/
theorem trans {m : Nat} {past : List Char} (h : RestAt text m (l ++ past)) (hl : RestAt l n r) :
    RestAt text (m + n) (r ++ past) := by
  obtain ⟨front, rfl, rfl⟩ := hl
  rw [List.append_assoc] at h
  exact h.advance

theorem width_eq (h : RestAt text n rest) : width text = n + width rest := by
  obtain ⟨front, rfl, rfl⟩ := h
  exact width_append front rest

/-- There is one rest behind an octet only. -/
theorem eq {rest' : List Char} (h : RestAt text n rest) (h' : RestAt text n rest') :
    rest = rest' := by
  obtain ⟨front, rfl, rfl⟩ := h
  obtain ⟨front', htext, hwidth⟩ := h'
  exact (append_inj_width htext hwidth.symm).2

end RestAt

namespace Span

/-- A slice of a part of a text is a slice of the text, further right. -/
theorem slice?_shift {s : Span} {text part past piece : List Char} {n : Nat}
    (hpart : RestAt text n (part ++ past)) (h : s.slice? part = some piece) :
    (s.shift n).slice? text = some piece := by
  obtain ⟨front, rfl, rfl⟩ := hpart
  obtain ⟨lead, trail, rfl, hstart, hstop⟩ := slice?_eq_some_iff.1 h
  refine slice?_eq_some_iff.2 ⟨front ++ lead, trail ++ past, by simp, ?_, ?_⟩
  · rw [width_append, hstart, shift, Nat.add_comm]
  · rw [width_append, shift]
    dsimp only
    omega

end Span

end SceneExpr
