import SceneExpr.Proofs.Octets.Basic
import SceneExpr.Scan

namespace SceneExpr.Octets

/-- What must never happen when a text is read by offsets: a part of it is taken that is not there
or that cuts a character, octets out of range, a span whose ends are in the wrong order, a
parenthesis that closes nothing, a call site at a quote, a loop that does not end. -/
inductive Panic where
  | part (start stop : Nat)
  | range (start stop : Nat)
  | octet (offset : Nat)
  | span (ends : Span.Reversed)
  | depth
  | quote
  | endless

inductive Outcome (α : Type) where
  | panic (p : Panic)
  | error (e : ParseError)
  | ok (a : α)

namespace Outcome

variable {α β : Type}

def bind (x : Outcome α) (f : α → Outcome β) : Outcome β :=
  match x with
  | .panic p => .panic p
  | .error e => .error e
  | .ok a => f a

instance : Monad Outcome where
  pure := .ok
  bind := bind

def ofExcept : Except ParseError α → Outcome α
  | .error e => .error e
  | .ok a => .ok a

@[simp] theorem pure_eq (a : α) : (pure a : Outcome α) = .ok a := rfl

@[simp] theorem ok_bind (a : α) (f : α → Outcome β) : (Outcome.ok a >>= f) = f a := rfl

theorem ofExcept_map_ok (f : α → β) (a : α) : ofExcept ((Except.ok a).map f) = .ok (f a) := rfl

end Outcome

/-- The part of a text between two offsets. -/
def part (text : List Char) (start stop : Nat) : Outcome (List Char) :=
  match Span.slice? ⟨start, stop⟩ text with
  | some cs => .ok cs
  | none => .panic (.part start stop)

def range (text : List Char) (start stop : Nat) : Outcome (List UInt8) :=
  if start ≤ stop ∧
    stop ≤ (octets text).length then .ok (((octets text).drop start).take (stop - start))
  else .panic (.range start stop)

def octet (text : List Char) (offset : Nat) : Outcome UInt8 :=
  match (octets text)[offset]? with
  | some b => .ok b
  | none => .panic (.octet offset)

def span (start stop : Nat) : Outcome Span :=
  match Span.between start stop with
  | .ok s => .ok s
  | .error ends => .panic (.span ends)

/-- The offset of what was found past another offset, or else that of the end of the text. -/
def stopAt (text : List Char) (start : Nat) : Option Nat → Nat
  | none => (octets text).length
  | some i => start + i

def isBoundary (text : List Char) (offset : Nat) : Bool :=
  offset = 0 ||
    match (octets text)[offset]? with
    | none => offset = (octets text).length
    | some b => b.toNat < 128 || 192 ≤ b.toNat

section Equations

variable {text l r rest : List Char} {n : Nat}

theorem part_of_restAt (h : RestAt text n (l ++ r)) : part text n (n + width l) = .ok l := by
  rw [part, h.slice?]

theorem part_to_end (h : RestAt text n rest) : part text n (octets text).length = .ok rest := by
  rw [length_octets, h.width_eq]
  exact part_of_restAt (r := []) (by rwa [List.append_nil])

theorem drop_octets (h : RestAt text n rest) : (octets text).drop n = octets rest := by
  obtain ⟨front, rfl, rfl⟩ := h
  rw [octets_append, ← length_octets, List.drop_left]

theorem range_of_restAt (h : RestAt text n (l ++ r)) :
    range text n (n + width l) = .ok (octets l) := by
  have hwidth := h.width_eq
  rw [width_append] at hwidth
  rw [range, if_pos ⟨Nat.le_add_right _ _, by rw [length_octets]; omega⟩, drop_octets h,
    Nat.add_sub_cancel_left, octets_append, ← length_octets, List.take_left]

theorem range_to_end (h : RestAt text n rest) :
    range text n (octets text).length = .ok (octets rest) := by
  rw [length_octets, h.width_eq]
  exact range_of_restAt (r := []) (by rwa [List.append_nil])

theorem stopAt_firstOctet? {P : Char → Bool} (hP : OctetWise P) (h : RestAt text n rest) :
    stopAt text n (firstOctet? P (octets rest)) = n + width (rest.takeWhile fun c => !P c) := by
  rw [← hP.firstOctet?_octets]
  cases firstOctet? P (octets rest) with
  | none => rw [stopAt, length_octets, h.width_eq, Option.getD_none]
  | some i => rfl

theorem exists_octet_of_restAt {c : Char} (h : RestAt text n (c :: r)) :
    ∃ b ∈ String.utf8EncodeChar c, octet text n = .ok b := by
  obtain ⟨b, bs, hb, -⟩ := exists_utf8EncodeChar_eq_cons c
  have hget : (octets text)[n]? = some b := by
    rw [← Nat.add_zero n, ← List.getElem?_drop, drop_octets h, octets_cons, hb]
    rfl
  refine ⟨b, hb ▸ List.mem_cons_self, ?_⟩
  rw [octet, hget]

theorem isBoundary_of_restAt (h : RestAt text n rest) : isBoundary text n = true := by
  have hdrop := drop_octets h
  have hget : (octets text)[n]? = (octets rest)[0]? := by
    rw [← hdrop, List.getElem?_drop, Nat.add_zero]
  rw [isBoundary, hget, Bool.or_eq_true]
  right
  cases rest with
  | nil =>
    have hwidth := h.width_eq
    rw [width_nil] at hwidth
    simp [hwidth]
  | cons c rest =>
    obtain ⟨b, bs, hb, hlead⟩ := exists_utf8EncodeChar_eq_cons c
    rw [octets_cons, hb]
    simpa using hlead

theorem span_of_le {start stop : Nat} (h : start ≤ stop) :
    span start stop = .ok ⟨start, stop⟩ := by
  rw [span, Span.between, dif_neg (Nat.not_lt.2 h)]

end Equations

end SceneExpr.Octets
