import SceneExpr.Text.Width

namespace SceneExpr

/-- The offsets at which the lines of a text start, the first of them 0. -/
structure LineIndex where
  starts : List Nat

structure Position where
  line : Nat
  column : Nat
deriving DecidableEq, Repr

namespace LineIndex

/-- The offsets just past each line feed of a text that begins at `offset`. -/
def startsAfter (offset : Nat) : List Char → List Nat
  | [] => []
  | c :: cs =>
    let next := offset + c.utf8Size
    if c = '\n' then next :: startsAfter next cs else startsAfter next cs

def ofText (cs : List Char) : LineIndex := ⟨0 :: startsAfter 0 cs⟩

def lineCount (l : LineIndex) : Nat := l.starts.length

/-- The last line that starts at or before the offset, and the distance from its start; both count
from zero. -/
def position (l : LineIndex) (offset : Nat) : Position :=
  let begun := l.starts.takeWhile (· ≤ offset)
  ⟨begun.length - 1, offset - begun.getLastD 0⟩

end LineIndex

end SceneExpr
