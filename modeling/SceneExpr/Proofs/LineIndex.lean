import Mathlib.Data.List.Induction
import Mathlib.Data.Prod.Lex
import Mathlib.Order.Monotone.Basic
import SceneExpr.LineIndex
import SceneExpr.Proofs.Octets.Basic

namespace SceneExpr

def lineFeed : UInt8 := 10

namespace Octets

def startsFrom (offset : Nat) (bs : List UInt8) : List Nat :=
  ((bs.zipIdx offset).filter fun p => p.1 = lineFeed).map fun p => p.2 + 1

def lineStarts (text : List Char) : List Nat := 0 :: startsFrom 0 (octets text)

/-- Looks for a value among ascending ones, from place `low` up to but not including `high`: the
place where it stands, or else, as an error, the place where it is missing. -/
def searchFrom (starts : List Nat) (value low high : Nat)
    (h : high ≤ starts.length) : Except Nat Nat :=
  if _hlt : low < high then
    let middle := low + (high - low) / 2
    have _hmiddle : middle < starts.length := by omega
    if starts[middle] = value then .ok middle
    else if starts[middle] < value then searchFrom starts value (middle + 1) high h
    else searchFrom starts value low middle (by omega)
  else .error low
termination_by high - low

def search (starts : List Nat) (value : Nat) : Except Nat Nat :=
  searchFrom starts value 0 starts.length (Nat.le_refl _)

/-- The position of an offset; none if a line is read that is not there. -/
def position? (text : List Char) (offset : Nat) : Option Position :=
  let line :=
    match search (lineStarts text) offset with
    | .ok found => found
    | .error missing => missing - 1
  (lineStarts text)[line]?.map fun start => ⟨line, offset - start⟩

end Octets

namespace Position

/-- The line feeds in front of the offset are as many as the line says, and behind the last of them,
or behind the start of the text if there is none, the octets up to the offset are as many as the
column says. -/
structure Marks (p : Position) (text : List Char) (offset : Nat) : Prop where
  line : p.line = ((octets text).take offset).count lineFeed
  column : ∃ front row, (octets text).take offset = front ++ row ∧
    (front = [] ∨ front.getLast? = some lineFeed) ∧ lineFeed ∉ row ∧ p.column = row.length

end Position

namespace Octets

section Starts

variable {offset : Nat} {bs : List UInt8}

end Starts

section Search

variable {starts : List Nat} {value low high n m : Nat}

/-- The values in front of place `n` are those that are not greater than `value`. -/
structure Splits (starts : List Nat) (value n : Nat) : Prop where
  le : n ≤ starts.length
  getElem_le_iff : ∀ i (hi : i < starts.length), starts[i] ≤ value ↔ i < n

theorem Splits.not_lt (h : Splits starts value n) (h' : Splits starts value m) : ¬n < m := by
  intro hlt
  have hn : n < starts.length := Nat.lt_of_lt_of_le hlt h'.le
  have hle := (h'.getElem_le_iff n hn).2 hlt
  exact Nat.lt_irrefl n ((h.getElem_le_iff n hn).1 hle)

theorem Splits.unique (h : Splits starts value n) (h' : Splits starts value m) : n = m :=
  Nat.le_antisymm (Nat.not_lt.1 (h'.not_lt h)) (Nat.not_lt.1 (h.not_lt h'))

end Search

end Octets

namespace LineIndex

variable (text : List Char) (offset : Nat)

def begun : List Nat := 0 :: Octets.startsFrom 0 ((octets text).take offset)

end LineIndex

end SceneExpr
