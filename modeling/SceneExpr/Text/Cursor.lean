import SceneExpr.Text.Width

namespace SceneExpr

/-- A character that starts at `start`, cut at `offset`. -/
structure CutCharacter where
  char : Char
  start : Nat
  offset : Nat
deriving DecidableEq, Repr

namespace CutCharacter

def stop (c : CutCharacter) : Nat := c.start + c.char.utf8Size

def message (c : CutCharacter) (text : String) : String :=
  s!"byte index {c.offset} is not a char boundary; it is inside '{c.char}' " ++
    s!"(bytes {c.start}..{c.stop}) of \x60{text}\x60"

def find? (start offset : Nat) : List Char → Option CutCharacter
  | [] => none
  | c :: cs =>
    if offset ≤ start then none
    else if offset < start + c.utf8Size then some ⟨c, start, offset⟩
    else find? (start + c.utf8Size) offset cs

end CutCharacter

/-- A place in a text, given by its offset; the rest starts with the first whole character. -/
structure Cursor where
  floor : Nat
  cut : Option CutCharacter
  rest : List Char

namespace Cursor

def place (offset : Nat) (text : List Char) : Cursor :=
  ⟨offset, CutCharacter.find? 0 offset text, dropWidth offset text⟩

def offset (c : Cursor) : Nat :=
  match c.cut with
  | none => c.floor
  | some cut => cut.stop

end Cursor

end SceneExpr
