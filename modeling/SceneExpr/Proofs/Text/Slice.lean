import SceneExpr.Span
import SceneExpr.Text.Width

namespace SceneExpr

/-- Cuts a text at an octet, which has to fall between two characters. -/
def cutWidth? : Nat → List Char → Option (List Char × List Char)
  | 0, cs => some ([], cs)
  | _ + 1, [] => none
  | n + 1, c :: cs =>
    if c.utf8Size ≤ n + 1 then
      (cutWidth? (n + 1 - c.utf8Size) cs).map fun p => (c :: p.1, p.2)
    else none

theorem cutWidth?_append (cs ds : List Char) : cutWidth? (width cs) (cs ++ ds) = some (cs, ds) := by
  induction cs with
  | nil => simp [cutWidth?]
  | cons c cs ih =>
    obtain ⟨n, hn⟩ : ∃ n, c.utf8Size + width cs = n + 1 :=
      ⟨c.utf8Size + width cs - 1, by have := c.utf8Size_pos; omega⟩
    have hle : c.utf8Size ≤ n + 1 := by omega
    rw [width_cons, hn, List.cons_append, cutWidth?, if_pos hle, ← hn,
      Nat.add_sub_cancel_left, ih]
    rfl

/-- A text is split in one way only at an octet. -/
theorem append_inj_width {cs cs' ds ds' : List Char} (h : cs ++ ds = cs' ++ ds')
    (hwidth : width cs = width cs') : cs = cs' ∧ ds = ds' := by
  have hcut := cutWidth?_append cs ds
  rw [h, hwidth, cutWidth?_append] at hcut
  exact Prod.mk.inj (Option.some.inj hcut.symm)

theorem eq_append_of_cutWidth? {n : Nat} {text cs ds : List Char}
    (h : cutWidth? n text = some (cs, ds)) : text = cs ++ ds ∧ width cs = n := by
  fun_induction cutWidth? n text generalizing cs ds with
  | case1 text =>
    obtain ⟨rfl, rfl⟩ := Prod.mk.inj (Option.some.inj h)
    exact ⟨rfl, rfl⟩
  | case2 => simp at h
  | case3 n c text hle ih =>
    obtain ⟨p, hp, he⟩ := Option.map_eq_some_iff.1 h
    obtain ⟨rfl, rfl⟩ := Prod.mk.inj he
    obtain ⟨htext, hwidth⟩ := ih hp
    exact ⟨by rw [htext, List.cons_append], by rw [width_cons, hwidth]; omega⟩
  | case4 => simp at h

namespace Span

def slice? (s : Span) (text : List Char) : Option (List Char) :=
  if s.start ≤ s.stop then
    ((cutWidth? s.start text).bind fun p => cutWidth? (s.stop - s.start) p.2).map (·.1)
  else none

theorem slice?_eq_some_iff {s : Span} {text piece : List Char} :
    s.slice? text = some piece ↔
      ∃ front back, text = front ++ piece ++ back ∧ width front = s.start ∧
        width front + width piece = s.stop := by
  constructor
  · intro h
    rw [slice?] at h
    split at h
    next hle =>
      obtain ⟨q, hq, rfl⟩ := Option.map_eq_some_iff.1 h
      obtain ⟨p, hp, hpq⟩ := Option.bind_eq_some_iff.1 hq
      obtain ⟨htext, hfront⟩ := eq_append_of_cutWidth? hp
      obtain ⟨hpast, hpiece⟩ := eq_append_of_cutWidth? hpq
      exact ⟨p.1, q.2, by rw [htext, hpast, List.append_assoc], hfront, by omega⟩
    next => simp at h
  · rintro ⟨front, back, rfl, hstart, hstop⟩
    have hlen : s.stop - s.start = width piece := by omega
    rw [slice?, if_pos (by omega), ← hstart, List.append_assoc, cutWidth?_append,
      Option.bind_some, hstart, hlen, cutWidth?_append, Option.map_some]

/-- A span is that of its slice, further right. -/
theorem eq_shift_of_slice? {s : Span} {text piece : List Char} (h : s.slice? text = some piece) :
    s = shift ⟨0, width piece⟩ s.start := by
  obtain ⟨front, back, -, hstart, hstop⟩ := slice?_eq_some_iff.1 h
  rw [shift, Nat.zero_add, Nat.add_comm, ← hstart, hstop, hstart]

end Span

end SceneExpr
