import SceneExpr.Catalog.Signature
import SceneExpr.Text.Blank
import SceneExpr.Text.Cursor

namespace SceneExpr

inductive Mark where
  | dot
  | paren
  | quote
deriving DecidableEq, Repr

namespace Mark

def tag : Mark → String
  | .dot => "dot"
  | .paren => "paren"
  | .quote => "quote"

def char : Mark → Char
  | .dot => '.'
  | .paren => '('
  | .quote => '"'

/-- Quotes are marks in text expressions only. -/
def ofChar? (kind : ValueKind) (c : Char) : Option Mark :=
  if c = '.' then some .dot
  else if c = '(' then some .paren
  else if c = '"' ∧ kind = .text then some .quote
  else none

theorem char_of_ofChar? {kind : ValueKind} {c : Char} {m : Mark} (h : ofChar? kind c = some m) :
    m.char = c := by
  grind [ofChar?, char]

end Mark

structure MarkedCut where
  before : List Char
  mark : Mark
  after : List Char

def nextMark? (kind : ValueKind) : List Char → Option MarkedCut
  | [] => none
  | c :: cs =>
    match Mark.ofChar? kind c with
    | some m => some ⟨[], m, cs⟩
    | none => (nextMark? kind cs).map fun cut => { cut with before := c :: cut.before }

theorem nextMark?_eq {kind : ValueKind} {cs : List Char} {cut : MarkedCut}
    (h : nextMark? kind cs = some cut) : cut.before ++ cut.mark.char :: cut.after = cs := by
  induction cs generalizing cut with
  | nil => simp [nextMark?] at h
  | cons c cs ih =>
    rw [nextMark?] at h
    split at h
    next m hm =>
      obtain rfl := Option.some.inj h
      simp [Mark.char_of_ofChar? hm]
    next =>
      obtain ⟨cut', hcut, rfl⟩ := Option.map_eq_some_iff.1 h
      simp [ih hcut]

theorem after_length_lt_of_nextMark? {kind : ValueKind} {cs : List Char} {cut : MarkedCut}
    (h : nextMark? kind cs = some cut) : cut.after.length < cs.length := by
  rw [← nextMark?_eq h]
  simp only [List.length_append, List.length_cons]
  omega

/-- The characters that end an identifier, the ASCII blanks apart. -/
def separators : List Char :=
  [' ', ',', '+', '-', '*', '/', '%', '.', '<', '>', '=', '&', '|', ';', '(', ')', '#', '^', '!',
    '[', ']', '{', '}']

def isSeparator (c : Char) : Bool := isAsciiBlank c || separators.contains c

/-- The longest end of a text that holds no separator. -/
def lastIdentifier (cs : List Char) : List Char :=
  (cs.reverse.takeWhile fun c => !isSeparator c).reverse

def beforeIdentifier (cs : List Char) : List Char :=
  (cs.reverse.dropWhile fun c => !isSeparator c).reverse

/-- The offset of the identifier in front of the mark, in the text past a cursor. What is left of a
cut character belongs to the identifier that follows it. -/
def MarkedCut.identifierStart (cut : MarkedCut) (c : Cursor) : Nat :=
  if beforeIdentifier cut.before = [] then c.floor
  else c.offset + width (beforeIdentifier cut.before)

theorem beforeIdentifier_append_lastIdentifier (cs : List Char) :
    beforeIdentifier cs ++ lastIdentifier cs = cs := by
  rw [beforeIdentifier, lastIdentifier, ← List.reverse_append, List.takeWhile_append_dropWhile,
    List.reverse_reverse]

theorem not_isSeparator_of_mem_lastIdentifier {cs : List Char} {c : Char}
    (h : c ∈ lastIdentifier cs) : isSeparator c = false := by
  have h := List.all_eq_true.1 List.all_takeWhile c (List.mem_reverse.1 h)
  simpa using h

end SceneExpr
