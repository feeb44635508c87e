import SceneExpr.Text.Blank

namespace SceneExpr.Jsonc

mutual

/-- Whether the next character that is neither blank nor in a comment closes an array or an
object. -/
def closes : List Char → Bool
  | [] => false
  | '/' :: '/' :: cs => closesPastLine cs
  | '/' :: '*' :: cs => closesPastBlock cs
  | c :: cs => if isBlank c then closes cs else c = '}' || c = ']'

def closesPastLine : List Char → Bool
  | [] => false
  | c :: cs => if c = '\n' then closes cs else closesPastLine cs

def closesPastBlock : List Char → Bool
  | [] => false
  | '*' :: '/' :: cs => closes cs
  | _ :: cs => closesPastBlock cs

end

mutual

/-- The plain JSON of a document: comments are dropped, and commas in front of closing brackets. A
comment that is never closed takes the rest with it. -/
def strip : List Char → List Char
  | [] => []
  | '"' :: cs => '"' :: stripLiteral cs
  | '/' :: '/' :: cs => stripLine cs
  | '/' :: '*' :: cs => stripBlock cs
  | ',' :: cs => if closes cs then strip cs else ',' :: strip cs
  | c :: cs => c :: strip cs

/-- Inside a string literal a backslash takes the next character with it. -/
def stripLiteral : List Char → List Char
  | [] => []
  | '\\' :: c :: cs => '\\' :: c :: stripLiteral cs
  | '"' :: cs => '"' :: strip cs
  | c :: cs => c :: stripLiteral cs

/-- A line comment ends before its line feed, which is kept. -/
def stripLine : List Char → List Char
  | [] => []
  | c :: cs => if c = '\n' then c :: strip cs else stripLine cs

def stripBlock : List Char → List Char
  | [] => []
  | '*' :: '/' :: cs => strip cs
  | _ :: cs => stripBlock cs

end

end SceneExpr.Jsonc
