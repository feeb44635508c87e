import Mathlib.Data.List.TakeWhile
import SceneExpr.Json.Token

namespace SceneExpr.Json

/-- No number runs on into the text. -/
def Stops (cs : List Char) : Prop :=
  ∀ c ∈ cs.head?, c.isDigit = false ∧ c ≠ '.' ∧ c ≠ 'e' ∧ c ≠ 'E'

theorem Stops.nil : Stops [] := by simp [Stops]

def isNumeric (c : Char) : Bool :=
  c.isDigit || c = '.' || c = 'e' || c = 'E' || c = '+' || c = '-'

section Numbers

variable {cs r : List Char} {p : Cut}

theorem digits?_append (h : digits? cs = some p) (hr : ∀ c ∈ r.head?, c.isDigit = false) :
    digits? (p.1 ++ r) = some (p.1, r) := by
  have hne := (digits?_eq h).2
  unfold digits? at h
  split at h
  · simp at h
  next hdigits =>
    obtain rfl := Option.some.inj h
    have hall : ∀ c ∈ cs.takeWhile Char.isDigit, c.isDigit = true := fun c hc =>
      List.mem_takeWhile_imp hc
    have hstop : r.takeWhile Char.isDigit = [] ∧ r.dropWhile Char.isDigit = r := by
      cases r with
      | nil => exact ⟨rfl, rfl⟩
      | cons c r => simp [hr c rfl]
    unfold digits?
    rw [List.takeWhile_append_of_pos hall, List.dropWhile_append_of_pos hall, hstop.1, hstop.2,
      List.append_nil]
    split
    · contradiction
    · rfl

theorem isDigit_of_digits? (h : digits? cs = some p) {c : Char} (hc : c ∈ p.1) :
    c.isDigit = true := by
  unfold digits? at h
  split at h
  · simp at h
  · obtain rfl := Option.some.inj h
    exact List.mem_takeWhile_imp hc

theorem whole?_of_head (h : ∀ c ∈ cs.head?, c ≠ '0') : whole? cs = digits? cs := by
  unfold whole?
  split
  · exact absurd rfl (h '0' rfl)
  · rfl

theorem whole?_append (h : whole? cs = some p) (hr : ∀ c ∈ r.head?, c.isDigit = false) :
    whole? (p.1 ++ r) = some (p.1, r) := by
  unfold whole? at h
  split at h
  · obtain rfl := Option.some.inj h
    rfl
  next hzero =>
    have heq := digits?_eq h
    rw [whole?_of_head, digits?_append h hr]
    rintro c hc rfl
    obtain ⟨d, ds, hp⟩ := List.exists_cons_of_ne_nil heq.2
    rw [hp] at hc
    obtain rfl : d = '0' := by simpa using hc
    rw [hp] at heq
    exact hzero _ heq.1.symm

theorem fraction?_append (h : fraction? cs = some p)
    (hr : ∀ c ∈ r.head?, c.isDigit = false ∧ c ≠ '.') :
    fraction? (p.1 ++ r) = some (p.1, r) := by
  unfold fraction? at h
  split at h
  · obtain ⟨q, hq, rfl⟩ := Option.map_eq_some_iff.1 h
    simp [Cut.push, fraction?, digits?_append hq fun c hc => (hr c hc).1]
  · obtain rfl := Option.some.inj h
    unfold fraction?
    split
    next heq =>
      rw [List.nil_append] at heq
      exact absurd rfl (hr '.' (by simp [heq])).2
    · rfl

theorem exponentSign_of_isDigit {c : Char} (hc : c.isDigit = true) (ds : List Char) :
    exponentSign (c :: ds) = ([], c :: ds) := by
  unfold exponentSign
  split
  next heq =>
    obtain ⟨rfl, -⟩ := List.cons.inj heq
    simp at hc
  next heq =>
    obtain ⟨rfl, -⟩ := List.cons.inj heq
    simp at hc
  · rfl

theorem exponentSign_append (cs : List Char) {c : Char} (hc : c.isDigit = true) (ds : List Char) :
    exponentSign ((exponentSign cs).1 ++ c :: ds) = ((exponentSign cs).1, c :: ds) := by
  have hsign : (exponentSign cs).1 = ['+'] ∨ (exponentSign cs).1 = ['-'] ∨
      (exponentSign cs).1 = [] := by
    unfold exponentSign
    split <;> simp
  rcases hsign with hsign | hsign | hsign <;> rw [hsign]
  · rfl
  · rfl
  · exact exponentSign_of_isDigit hc ds

theorem exponent?_append (h : exponent? cs = some p)
    (hr : ∀ c ∈ r.head?, c.isDigit = false ∧ c ≠ 'e' ∧ c ≠ 'E') :
    exponent? (p.1 ++ r) = some (p.1, r) := by
  have hnone : exponent? r = some ([], r) := by
    cases r with
    | nil => rfl
    | cons c r => rw [exponent?, if_neg (not_or.2 (hr c rfl).2)]
  unfold exponent? at h
  split at h
  next c cs =>
    split at h
    next hc =>
      obtain ⟨q, hq, rfl⟩ := Option.map_eq_some_iff.1 h
      obtain ⟨d, ds, hdigits⟩ := List.exists_cons_of_ne_nil (digits?_eq hq).2
      have hd := isDigit_of_digits? hq (c := d) (by simp [hdigits])
      have hread := digits?_append hq fun c hc => (hr c hc).1
      rw [List.cons_append, List.append_assoc, exponent?, if_pos hc]
      rw [hdigits, List.cons_append] at hread ⊢
      simp only [exponentSign_append _ hd, hread, Option.map_some]
    next =>
      obtain rfl := Option.some.inj h
      exact hnone
  next =>
    obtain rfl := Option.some.inj h
    exact hnone

theorem eq_nil_or_of_fraction? (h : fraction? cs = some p) :
    p.1 = [] ∨ ∃ ds, p.1 = '.' :: ds := by
  unfold fraction? at h
  split at h
  · obtain ⟨q, -, rfl⟩ := Option.map_eq_some_iff.1 h
    exact .inr ⟨q.1, rfl⟩
  · obtain rfl := Option.some.inj h
    exact .inl rfl

theorem eq_nil_or_of_exponent? (h : exponent? cs = some p) :
    p.1 = [] ∨ ∃ c ds, p.1 = c :: ds ∧ (c = 'e' ∨ c = 'E') := by
  unfold exponent? at h
  split at h
  · split at h
    next hc =>
      obtain ⟨q, -, rfl⟩ := Option.map_eq_some_iff.1 h
      exact .inr ⟨_, _, rfl, hc⟩
    next =>
      obtain rfl := Option.some.inj h
      exact .inl rfl
  · obtain rfl := Option.some.inj h
    exact .inl rfl

theorem unsigned?_append (h : unsigned? cs = some p) (hr : Stops r) :
    unsigned? (p.1 ++ r) = some (p.1, r) := by
  simp only [unsigned?, Option.bind_eq_bind, Option.bind_eq_some_iff, Option.pure_def,
    Option.some.injEq] at h
  obtain ⟨w, hw, f, hf, e, he, rfl⟩ := h
  -- Each part stops at the first character of the next, or else at that of the rest.
  have hpoint : ∀ c ∈ (e.1 ++ r).head?, c.isDigit = false ∧ c ≠ '.' := by
    intro c hc
    rcases eq_nil_or_of_exponent? he with hnil | ⟨d, ds, hcons, hd⟩
    · rw [hnil] at hc
      exact ⟨(hr c hc).1, (hr c hc).2.1⟩
    · rw [hcons] at hc
      obtain rfl : d = c := by simpa using hc
      rcases hd with rfl | rfl <;> decide
  have hdigit : ∀ c ∈ (f.1 ++ (e.1 ++ r)).head?, c.isDigit = false := by
    intro c hc
    rcases eq_nil_or_of_fraction? hf with hnil | ⟨ds, hcons⟩
    · rw [hnil] at hc
      exact (hpoint c hc).1
    · rw [hcons] at hc
      obtain rfl : '.' = c := by simpa using hc
      rfl
  have hwhole := whole?_append hw hdigit
  have hfraction := fraction?_append hf hpoint
  have hexponent : exponent? (e.1 ++ r) = some (e.1, r) :=
    exponent?_append he fun c hc => ⟨(hr c hc).1, (hr c hc).2.2⟩
  simp only [List.append_assoc, unsigned?, Option.bind_eq_bind, hwhole, Option.bind_some, hfraction,
    hexponent, Option.pure_def]

theorem number?_of_head (h : ∀ c ∈ cs.head?, c ≠ '-') : number? cs = unsigned? cs := by
  unfold number?
  split
  · exact absurd rfl (h '-' rfl)
  · rfl

/-- A number is read back with whatever it does not run on into. -/
theorem number?_append (h : number? cs = some p) (hr : Stops r) :
    number? (p.1 ++ r) = some (p.1, r) := by
  unfold number? at h
  split at h
  · obtain ⟨q, hq, rfl⟩ := Option.map_eq_some_iff.1 h
    simp [Cut.push, number?, unsigned?_append hq hr]
  next hminus =>
    have heq := unsigned?_eq h
    rw [number?_of_head, unsigned?_append h hr]
    rintro c hc rfl
    obtain ⟨d, ds, hp⟩ := List.exists_cons_of_ne_nil heq.2
    rw [hp] at hc
    obtain rfl : d = '-' := by simpa using hc
    rw [hp] at heq
    exact hminus _ heq.1.symm

theorem isNumeric_of_digits? (h : digits? cs = some p) {c : Char} (hc : c ∈ p.1) :
    isNumeric c = true := by
  simp [isNumeric, isDigit_of_digits? h hc]

theorem isNumeric_of_whole? (h : whole? cs = some p) {c : Char} (hc : c ∈ p.1) :
    isNumeric c = true := by
  unfold whole? at h
  split at h
  · obtain rfl := Option.some.inj h
    obtain rfl := List.mem_singleton.1 hc
    rfl
  · exact isNumeric_of_digits? h hc

theorem isNumeric_of_fraction? (h : fraction? cs = some p) {c : Char} (hc : c ∈ p.1) :
    isNumeric c = true := by
  unfold fraction? at h
  split at h
  · obtain ⟨q, hq, rfl⟩ := Option.map_eq_some_iff.1 h
    rcases List.mem_cons.1 hc with rfl | hc
    · rfl
    · exact isNumeric_of_digits? hq hc
  · obtain rfl := Option.some.inj h
    cases hc

theorem isNumeric_of_exponent? (h : exponent? cs = some p) {c : Char} (hc : c ∈ p.1) :
    isNumeric c = true := by
  have hsign : ∀ d ∈ (exponentSign cs.tail).1, isNumeric d = true := by
    unfold exponentSign
    split <;> simp [isNumeric]
  unfold exponent? at h
  split at h
  · split at h
    next he =>
      obtain ⟨q, hq, rfl⟩ := Option.map_eq_some_iff.1 h
      rcases List.mem_cons.1 hc with rfl | hc
      · rcases he with rfl | rfl <;> rfl
      · rcases List.mem_append.1 hc with hc | hc
        · exact hsign c hc
        · exact isNumeric_of_digits? hq hc
    next =>
      obtain rfl := Option.some.inj h
      cases hc
  · obtain rfl := Option.some.inj h
    cases hc

theorem isNumeric_of_unsigned? (h : unsigned? cs = some p) {c : Char} (hc : c ∈ p.1) :
    isNumeric c = true := by
  simp only [unsigned?, Option.bind_eq_bind, Option.bind_eq_some_iff, Option.pure_def,
    Option.some.injEq] at h
  obtain ⟨w, hw, f, hf, e, he, rfl⟩ := h
  rcases List.mem_append.1 hc with hc | hc
  · rcases List.mem_append.1 hc with hc | hc
    · exact isNumeric_of_whole? hw hc
    · exact isNumeric_of_fraction? hf hc
  · exact isNumeric_of_exponent? he hc

theorem isNumeric_of_number? (h : number? cs = some p) {c : Char} (hc : c ∈ p.1) :
    isNumeric c = true := by
  unfold number? at h
  split at h
  · obtain ⟨q, hq, rfl⟩ := Option.map_eq_some_iff.1 h
    rcases List.mem_cons.1 hc with rfl | hc
    · rfl
    · exact isNumeric_of_unsigned? hq hc
  · exact isNumeric_of_unsigned? h hc

end Numbers

end SceneExpr.Json
