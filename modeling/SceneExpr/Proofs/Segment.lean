import Mathlib.Data.List.Chain
import SceneExpr.Proofs.Text.Slice
import SceneExpr.Scan
import SceneExpr.Tree.Basic

namespace SceneExpr

/-- A piece of a text; literals and calls are tokens, known by their spans only. -/
inductive Segment where
  | constant (text : String)
  | token (span : Span)
deriving DecidableEq, Repr

namespace Segment

def isConstant : Segment → Bool
  | .constant _ => true
  | .token _ => false

def written? (text : List Char) : Segment → Option (List Char)
  | .constant cs => some cs.toList
  | .token span => span.slice? text

/-- What is written in the text for some segments, one after the other. -/
def spell? (text : List Char) : List Segment → Option (List Char)
  | [] => some []
  | s :: ss => do
    let cs ← s.written? text
    let ds ← spell? text ss
    return cs ++ ds

/-- The segments lie side by side from an octet on, and together they hold the given text. -/
inductive Tiles : Nat → List Segment → List Char → Prop where
  | nil (n : Nat) : Tiles n [] []
  | constant {n : Nat} {segments : List Segment} {ds : List Char} (cs : List Char) :
      Tiles (n + width cs) segments ds →
      Tiles n (.constant (String.ofList cs) :: segments) (cs ++ ds)
  | token {n : Nat} {segments : List Segment} {ds : List Char} (cs : List Char) :
      Tiles (n + width cs) segments ds →
      Tiles n (.token ⟨n, n + width cs⟩ :: segments) (cs ++ ds)

/-- No constant text is empty, and no two stand next to each other. -/
structure Separated (segments : List Segment) : Prop where
  ne_empty : Segment.constant "" ∉ segments
  apart : segments.IsChain fun a b => ¬(a.isConstant = true ∧ b.isConstant = true)

namespace Tiles

variable {n : Nat} {xs ys : List Segment} {cs ds : List Char}

/-- The first of some segments hold the first part of the text. -/
theorem split (h : Tiles n (xs ++ ys) cs) :
    ∃ front back, cs = front ++ back ∧ Tiles n xs front ∧
      Tiles (n + width front) ys back := by
  induction xs generalizing n cs with
  | nil => exact ⟨[], cs, rfl, .nil n, by simpa using h⟩
  | cons x xs ih =>
    cases h with
    | constant cs h =>
      obtain ⟨front, back, rfl, hfront, hback⟩ := ih h
      exact ⟨cs ++ front, back, by simp, .constant cs hfront, by
        simpa [Nat.add_assoc] using hback⟩
    | token cs h =>
      obtain ⟨front, back, rfl, hfront, hback⟩ := ih h
      exact ⟨cs ++ front, back, by simp, .token cs hfront, by simpa [Nat.add_assoc] using hback⟩

/-- Wherever tiles lie in a text, they spell what they hold. -/
theorem spell?_eq (h : Tiles n xs cs) {text back : List Char} (front : List Char)
    (hn : width front = n) (htext : text = front ++ cs ++ back) : spell? text xs = some cs := by
  induction h generalizing front with
  | nil => rfl
  | constant cs _ ih =>
    have hrest := ih (front ++ cs) (by simp [hn]) (by simp [htext])
    simp [spell?, written?, hrest]
  | @token n xs ds cs _ ih =>
    have hrest := ih (front ++ cs) (by simp [hn]) (by simp [htext])
    have hslice : Span.slice? ⟨n, n + width cs⟩ text = some cs :=
      Span.slice?_eq_some_iff.2 ⟨front, ds ++ back, by simp [htext], hn, by rw [hn]⟩
    simp [spell?, written?, hslice, hrest]

end Tiles

namespace Separated

variable {xs ys : List Segment}

theorem nil : Separated [] := ⟨by simp, .nil⟩

theorem cons_token {s : Span} (h : Separated xs) : Separated (.token s :: xs) where
  ne_empty := by simpa using h.ne_empty
  apart := h.apart.cons fun _ _ => by simp [isConstant]

theorem cons_constant {t : String} (h : Separated xs) (ht : t ≠ "")
    (hhead : ∀ x ∈ xs.head?, x.isConstant = false) : Separated (.constant t :: xs) where
  ne_empty := by simpa [Ne.symm ht] using h.ne_empty
  apart := h.apart.cons fun x hx => by simp [hhead x hx]

theorem left_of_append (h : Separated (xs ++ ys)) : Separated xs where
  ne_empty hmem := h.ne_empty (List.mem_append_left ys hmem)
  apart := h.apart.left_of_append

end Separated

end Segment

namespace Item

def segment : Item → Segment
  | .constant text => .constant text
  | .literal _ span => .token span
  | .call c _ => .token c.span

end Item

namespace Fragment

def segment : Fragment → Segment
  | .constant text => .constant text
  | .literal _ span => .token span
  | .call c => .token c.span

end Fragment

namespace Scan

theorem items_constant (text : List Char) (s : Scan) :
    (constant text s).items = (if text = [] then [] else [.constant (String.ofList text)]) ++
      s.items := by
  unfold constant
  split <;> rfl

@[simp] theorem error_constant (text : List Char) (s : Scan) :
    (constant text s).error = s.error := by
  unfold constant
  split <;> rfl

theorem tiles_constant {n : Nat} (text : List Char) {front : List Char} {s : Scan}
    (h : Segment.Tiles (n + width text) (s.items.map Item.segment) front) :
    Segment.Tiles n ((constant text s).items.map Item.segment) (text ++ front) := by
  rw [items_constant]
  split
  next htext =>
    subst htext
    simpa using h
  next =>
    exact .constant text h

/-- From an octet on, the items of a scan hold `front`. What is left of the text behind it is fit to
be left if nothing failed; otherwise the error lies past `front`. -/
structure Covers (Fit : List Char → Prop) (s : Scan) (n : Nat)
    (front back : List Char) : Prop where
  tiles : Segment.Tiles n (s.items.map Item.segment) front
  fit : s.error = none → Fit back
  le_start : ∀ e, s.error = some e → n + width front ≤ e.span.start

namespace Covers

variable {Fit : List Char → Prop} {s : Scan} {n : Nat} {front back : List Char}

theorem finished (h : Fit back) : Covers Fit .finished n [] back where
  tiles := .nil n
  fit _ := h
  le_start := by simp [Scan.finished]

theorem stopped {e : ParseError} (h : n ≤ e.span.start) : Covers Fit (.stopped e) n [] back where
  tiles := .nil n
  fit := by simp [Scan.stopped]
  le_start := by simpa [Scan.stopped] using h

theorem constant (text : List Char) (h : Covers Fit s (n + width text) front back) :
    Covers Fit (.constant text s) n (text ++ front) back where
  tiles := tiles_constant text h.tiles
  fit := by simpa using h.fit
  le_start e he := by
    rw [error_constant] at he
    have := h.le_start e he
    rw [width_append]
    omega

theorem token {i : Item} (body : List Char) (hi : i.segment = .token ⟨n, n + width body⟩)
    (h : Covers Fit s (n + width body) front back) :
    Covers Fit (.cons i s) n (body ++ front) back where
  tiles := by
    rw [Scan.cons, List.map_cons, hi]
    exact .token body h.tiles
  fit := h.fit
  le_start e he := by
    have := h.le_start e he
    rw [width_append]
    omega

end Covers

theorem separated_constant {text : List Char} {s : Scan}
    (h : Segment.Separated (s.items.map Item.segment))
    (hhead : ∀ x ∈ (s.items.map Item.segment).head?, x.isConstant = false) :
    Segment.Separated ((constant text s).items.map Item.segment) := by
  rw [items_constant]
  split
  next => simpa using h
  next htext =>
    apply Segment.Separated.cons_constant h _ hhead
    intro he
    exact htext (by simpa using congrArg String.toList he)

end Scan

end SceneExpr
