import Mathlib.Data.List.Pairwise
import SceneExpr.Proofs.CallSite.Extend
import SceneExpr.Span

namespace SceneExpr.Literal

/-- The characters outside literals with their offsets. A literal begins at every quote that is met,
and one that is not closed takes the rest with it. -/
def outside (offset : Nat) : List Char → List (Nat × Char)
  | [] => []
  | c :: cs =>
    if c = '"' then
      match _h : cut? cs with
      | none => []
      | some (raw, past) => outside (offset + width raw + 2) past
    else (offset, c) :: outside (offset + c.utf8Size) cs
termination_by cs => cs.length
decreasing_by
  · exact Nat.lt_succ_of_lt (cut?_length_lt _h)
  · simp

theorem outside_unclosed (offset : Nat) {cs : List Char} (h : cut? cs = none) :
    outside offset ('"' :: cs) = [] := by
  rw [outside, if_pos rfl]
  split
  · rfl
  next heq => cases h.symm.trans heq

theorem outside_literal (offset : Nat) {cs raw past : List Char} (h : cut? cs = some (raw, past)) :
    outside offset ('"' :: cs) = outside (offset + width raw + 2) past := by
  rw [outside, if_pos rfl]
  split
  next heq => cases h.symm.trans heq
  next heq =>
    obtain ⟨rfl, rfl⟩ := Prod.mk.inj (Option.some.inj (h.symm.trans heq))
    rfl

theorem outside_cons (offset : Nat) {c : Char} (h : c ≠ '"') (cs : List Char) :
    outside offset (c :: cs) = (offset, c) :: outside (offset + c.utf8Size) cs := by
  rw [outside, if_neg h]

/-- What holds of the empty text, where a literal is not closed, behind a literal if it holds past
it and behind any other character if it holds past it, holds of every text. -/
theorem outside_induction {motive : Nat → List Char → Prop} (nil : ∀ offset, motive offset [])
    (unclosed : ∀ offset cs, cut? cs = none → motive offset ('"' :: cs))
    (literal : ∀ offset cs raw past, cut? cs = some (raw, past) →
      motive (offset + width raw + 2) past →
      motive offset ('"' :: cs))
    (cons : ∀ offset c cs, c ≠ '"' → motive (offset + c.utf8Size) cs →
      motive offset (c :: cs))
    (offset : Nat) (cs : List Char) : motive offset cs := by
  match cs with
  | [] => exact nil offset
  | c :: cs =>
    by_cases hc : c = '"'
    · subst hc
      match h : cut? cs with
      | none => exact unclosed offset cs h
      | some (raw, past) =>
        exact literal offset cs raw past h (outside_induction nil unclosed literal cons _ past)
    · exact cons offset c cs hc (outside_induction nil unclosed literal cons _ cs)
termination_by cs.length
decreasing_by
  · exact Nat.lt_succ_of_lt (cut?_length_lt h)
  · simp

theorem le_of_mem_outside {offset : Nat} {cs : List Char} {m : Nat × Char}
    (h : m ∈ outside offset cs) :
    offset ≤ m.1 := by
  induction offset, cs using outside_induction with
  | nil offset => simp [outside] at h
  | unclosed offset cs hcut => simp [outside_unclosed offset hcut] at h
  | literal offset cs raw past hcut ih =>
    rw [outside_literal offset hcut] at h
    exact Nat.le_trans (by omega) (ih h)
  | cons offset c cs hc ih =>
    rw [outside_cons offset hc] at h
    rcases List.mem_cons.1 h with rfl | h
    · exact Nat.le_refl _
    · exact Nat.le_trans (Nat.le_add_right _ _) (ih h)

theorem pairwise_outside (offset : Nat) (cs : List Char) :
    (outside offset cs).Pairwise fun m n => m.1 < n.1 := by
  induction offset, cs using outside_induction with
  | nil offset => simp [outside]
  | unclosed offset cs hcut => simp [outside_unclosed offset hcut]
  | literal offset cs raw past hcut ih =>
    rw [outside_literal offset hcut]
    exact ih
  | cons offset c cs hc ih =>
    rw [outside_cons offset hc]
    refine List.pairwise_cons.2 ⟨fun m hm => ?_, ih⟩
    have hle := le_of_mem_outside hm
    have hpos := c.utf8Size_pos
    dsimp only
    omega

/-- The spans of the literals that are found one behind the other: each opens at the first quote
that is not escaped and closes at the next one. -/
def spans (offset : Nat) (cs : List Char) : List Span :=
  match _hopen : cut? cs with
  | none => []
  | some (front, past) =>
    match _hclose : cut? past with
    | none => []
    | some (raw, rest) =>
      let opened := offset + width front
      ⟨opened, opened + width raw + 2⟩ :: spans (opened + width raw + 2) rest
termination_by cs.length
decreasing_by exact Nat.lt_trans (cut?_length_lt _hclose) (cut?_length_lt _hopen)

theorem cut?_eq_none {cs : List Char} (h : '"' ∉ cs) : cut? cs = none := by
  refine Option.eq_none_iff_forall_ne_some.2 fun p hp => h ?_
  rw [← cut?_eq hp]
  exact List.mem_append_right p.1 List.mem_cons_self

theorem spans_of_no_open {offset : Nat} {cs : List Char} (h : cut? cs = none) :
    spans offset cs = [] := by
  rw [spans]
  split
  · rfl
  next heq => cases h.symm.trans heq

@[simp] theorem spans_nil (offset : Nat) : spans offset [] = [] := spans_of_no_open rfl

theorem spans_of_no_close {offset : Nat} {cs front past : List Char}
    (hopen : cut? cs = some (front, past)) (hclose : cut? past = none) : spans offset cs = [] := by
  rw [spans]
  split
  · rfl
  next heq =>
    obtain ⟨rfl, rfl⟩ := Prod.mk.inj (Option.some.inj (hopen.symm.trans heq))
    split
    · rfl
    next heq => cases hclose.symm.trans heq

theorem spans_of_cut {offset : Nat} {cs front past raw rest : List Char}
    (hopen : cut? cs = some (front, past)) (hclose : cut? past = some (raw, rest)) :
    spans offset cs = ⟨offset + width front, offset + width front + width raw + 2⟩ ::
      spans (offset + width front + width raw + 2) rest := by
  rw [spans]
  split
  next heq => cases hopen.symm.trans heq
  next heq =>
    obtain ⟨rfl, rfl⟩ := Prod.mk.inj (Option.some.inj (hopen.symm.trans heq))
    split
    next heq => cases hclose.symm.trans heq
    next heq =>
      obtain ⟨rfl, rfl⟩ := Prod.mk.inj (Option.some.inj (hclose.symm.trans heq))
      rfl

/-- Text in front of the first quote does not matter to the literals but for where they are. -/
theorem spans_behind {l cs ds : List Char} (h : cut? ds = (cut? cs).map fun p => (l ++ p.1, p.2))
    (offset : Nat) : spans offset ds = spans (offset + width l) cs := by
  cases hopen : cut? cs with
  | none =>
    rw [hopen] at h
    rw [spans_of_no_open hopen, spans_of_no_open h]
  | some p =>
    obtain ⟨front, past⟩ := p
    rw [hopen] at h
    cases hclose : cut? past with
    | none => rw [spans_of_no_close hopen hclose, spans_of_no_close h hclose]
    | some p =>
      obtain ⟨raw, rest⟩ := p
      rw [spans_of_cut hopen hclose, spans_of_cut h hclose, width_append,
        ← Nat.add_assoc offset (width l)]

theorem spans_plain {c : Char} (hquote : c ≠ '"') (hslash : c ≠ '\\') (offset : Nat)
    (cs : List Char) :
    spans offset (c :: cs) = spans (offset + c.utf8Size) cs := by
  refine spans_behind (l := [c]) ?_ offset
  rw [cut?]
  · rfl
  · exact hquote
  · exact fun _ _ hc => absurd hc hslash

theorem spans_escape (c : Char) (offset : Nat) (cs : List Char) :
    spans offset ('\\' :: c :: cs) = spans (offset + width ['\\', c]) cs :=
  spans_behind rfl offset

theorem spans_literal {cs raw past : List Char} (h : cut? cs = some (raw, past)) (offset : Nat) :
    spans offset ('"' :: cs) =
      ⟨offset, offset + width raw + 2⟩ :: spans (offset + width raw + 2) past := by
  have hopen : cut? ('"' :: cs) = some ([], cs) := rfl
  exact spans_of_cut hopen h

theorem le_start_of_mem_spans {offset : Nat} {cs : List Char} {s : Span}
    (h : s ∈ spans offset cs) :
    offset ≤ s.start := by
  match hopen : cut? cs with
  | none => simp [spans_of_no_open hopen] at h
  | some (front, past) =>
    match hclose : cut? past with
    | none => simp [spans_of_no_close hopen hclose] at h
    | some (raw, rest) =>
      rw [spans_of_cut hopen hclose] at h
      rcases List.mem_cons.1 h with rfl | h
      · exact Nat.le_add_right _ _
      · have hle := le_start_of_mem_spans h
        omega
termination_by cs.length
decreasing_by exact Nat.lt_trans (cut?_length_lt hclose) (cut?_length_lt hopen)

/-- A literal begins at a quote only. -/
theorem lt_start_of_mem_spans {offset : Nat} {c : Char} (hc : c ≠ '"') {cs : List Char} {s : Span}
    (h : s ∈ spans offset (c :: cs)) : offset < s.start := by
  by_cases hslash : c = '\\'
  · subst hslash
    cases cs with
    | nil =>
      have hnone : cut? ['\\'] = none := rfl
      simp [spans_of_no_open hnone] at h
    | cons d cs =>
      rw [spans_escape] at h
      have hle := le_start_of_mem_spans h
      have hpos := Char.utf8Size_pos '\\'
      simp only [width_cons] at hle
      omega
  · rw [spans_plain hc hslash] at h
    have hle := le_start_of_mem_spans h
    have hpos := c.utf8Size_pos
    omega

/-- The text closes the literals that it opens. -/
inductive Closed : List Char → Prop where
  | nil : Closed []
  | plain {c : Char} {cs : List Char} : c ≠ '"' → c ≠ '\\' → Closed cs → Closed (c :: cs)
  | escape (c : Char) {cs : List Char} : Closed cs → Closed ('\\' :: c :: cs)
  | literal {cs raw past : List Char} : cut? cs = some (raw, past) → Closed past →
      Closed ('"' :: cs)

/-- There is no literal in the text, and nothing is escaped. -/
def Unquoted (cs : List Char) : Prop := '"' ∉ cs ∧ '\\' ∉ cs

namespace Closed

variable {cs ds : List Char}

theorem of_unquoted (h : Unquoted cs) : Closed cs := by
  induction cs with
  | nil => exact .nil
  | cons c cs ih =>
    obtain ⟨hquote, hslash⟩ := h
    rw [List.mem_cons, not_or] at hquote hslash
    exact .plain (Ne.symm hquote.1) (Ne.symm hslash.1) (ih ⟨hquote.2, hslash.2⟩)

theorem append (h : Closed cs) (hds : Closed ds) : Closed (cs ++ ds) := by
  induction h with
  | nil => exact hds
  | plain hquote hslash _ ih => exact .plain hquote hslash ih
  | escape c _ ih => exact .escape c ih
  | literal hcut _ ih => exact .literal (cut?_append hcut ds) ih

/-- The literals of a text behind one that closes its own are those of both. -/
theorem spans_append (h : Closed cs) (offset : Nat) (ds : List Char) :
    spans offset (cs ++ ds) = spans offset cs ++ spans (offset + width cs) ds := by
  induction h generalizing offset with
  | nil => rw [spans_nil]; rfl
  | plain hquote hslash _ ih =>
    rw [List.cons_append, spans_plain hquote hslash, spans_plain hquote hslash, ih, width_cons,
      Nat.add_assoc]
  | @escape c cs _ ih =>
    have hwidth : width ('\\' :: c :: cs) = width ['\\', c] + width cs := width_append ['\\', c] cs
    rw [List.cons_append, List.cons_append, spans_escape, spans_escape, ih, hwidth, Nat.add_assoc]
  | @literal cs raw past hcut _ ih =>
    have hquote : Char.utf8Size '"' = 1 := rfl
    have hwidth : width ('"' :: cs) = width raw + 2 + width past := by
      rw [← cut?_eq hcut]
      simp only [width_cons, width_append, hquote]
      omega
    rw [List.cons_append, spans_literal (cut?_append hcut ds), spans_literal hcut, ih, hwidth]
    simp only [List.cons_append, Nat.add_assoc]

theorem stop_le_of_mem_spans (h : Closed cs) {offset : Nat} {s : Span}
    (hs : s ∈ spans offset cs) :
    s.stop ≤ offset + width cs := by
  induction h generalizing offset with
  | nil => simp at hs
  | plain hquote hslash _ ih =>
    rw [spans_plain hquote hslash] at hs
    have hle := ih hs
    rw [width_cons]
    omega
  | @escape c cs _ ih =>
    rw [spans_escape] at hs
    have hle := ih hs
    simp only [width_cons, width_nil] at hle ⊢
    omega
  | @literal cs raw past hcut _ ih =>
    have hquote : Char.utf8Size '"' = 1 := rfl
    have hwidth := congrArg width (cut?_eq hcut)
    simp only [width_cons, width_append, hquote] at hwidth ⊢
    rw [spans_literal hcut] at hs
    rcases List.mem_cons.1 hs with rfl | hs
    · dsimp only
      omega
    · have hle := ih hs
      omega

/-- Behind a text that closes its literals there is none around a name and the character that
follows it. -/
theorem apart_of_mem_spans (h : Closed cs) {name past : List Char} (hname : Unquoted name)
    {c : Char} (hc : c ≠ '"') {s : Span} (hs : s ∈ spans 0 (cs ++ (name ++ c :: past))) :
    s.stop ≤ width cs ∨ width cs + width name < s.start := by
  rw [h.spans_append, (of_unquoted hname).spans_append, List.mem_append, List.mem_append] at hs
  rcases hs with hs | hs | hs
  · have hle := h.stop_le_of_mem_spans hs
    omega
  · simp [spans_of_no_open (cut?_eq_none hname.1)] at hs
  · have hlt := lt_start_of_mem_spans hc hs
    omega

end Closed

end SceneExpr.Literal
