namespace SceneExpr

/-- The octets from `start` up to but not including `stop`. -/
structure Span where
  start : Nat
  stop : Nat
deriving DecidableEq, Repr

namespace Span

structure Reversed where
  start : Nat
  stop : Nat
  lt : stop < start

def Reversed.message (r : Reversed) : String :=
  s!"Span end ({r.stop}) < start ({r.start})"

/-- The span with the given ends, refused when they are in the wrong order. -/
def between (start stop : Nat) : Except Reversed Span :=
  if h : stop < start then .error ⟨start, stop, h⟩ else .ok ⟨start, stop⟩

def empty (offset : Nat) : Span := ⟨offset, offset⟩

def length (s : Span) : Nat := s.stop - s.start

def isEmpty (s : Span) : Bool := s.start = s.stop

/-- The same octets, seen from a text that holds the present one at octet `n`. -/
def shift (s : Span) (n : Nat) : Span := ⟨s.start + n, s.stop + n⟩

theorem shift_shift (s : Span) (m n : Nat) : (s.shift m).shift n = s.shift (m + n) := by
  simp [shift, Nat.add_assoc]

end Span

end SceneExpr
