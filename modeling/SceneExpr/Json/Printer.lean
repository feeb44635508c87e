import SceneExpr.Json.Basic
import SceneExpr.Json.Token

namespace SceneExpr.Json

def ofText (s : String) : Json := .string (escape s.toList)

def ofNat (n : Nat) : Json := .number (Nat.toDigits 10 n)

def member (key : String) (value : Json) : List Char × Json := (escape key.toList, value)

def record (members : List (String × Json)) : Json :=
  .object (members.map fun m => member m.1 m.2)

def optional (key : String) (value : Option Json) : List (String × Json) :=
  match value with
  | none => []
  | some v => [(key, v)]

def orNull (value : Option Json) : Json := value.getD .null

mutual

def tokens : Json → List Token
  | .null => [.null]
  | .bool b => [.bool b]
  | .number lexeme => [.number lexeme]
  | .string body => [.string body]
  | .array items => .openArray :: (itemTokens items ++ [.closeArray])
  | .object members => .openObject :: (memberTokens members ++ [.closeObject])

def itemTokens : List Json → List Token
  | [] => []
  | [v] => tokens v
  | v :: w :: vs => tokens v ++ .comma :: itemTokens (w :: vs)

def memberTokens : List (List Char × Json) → List Token
  | [] => []
  | [(k, v)] => .string k :: .colon :: tokens v
  | (k, v) :: m :: ms => .string k :: .colon :: (tokens v ++ .comma :: memberTokens (m :: ms))

end

def compact (v : Json) : List Char := (tokens v).flatMap Token.text

def newline (depth : Nat) : List Char := '\n' :: List.replicate (2 * depth) ' '

mutual

def prettyAt (depth : Nat) : Json → List Char
  | .null => Token.null.text
  | .bool b => (Token.bool b).text
  | .number lexeme => lexeme
  | .string body => (Token.string body).text
  | .array [] => ['[', ']']
  | .array (v :: vs) => '[' :: (prettyItems (depth + 1) (v :: vs) ++ newline depth ++ [']'])
  | .object [] => ['{', '}']
  | .object (m :: ms) => '{' :: (prettyMembers (depth + 1) (m :: ms) ++ newline depth ++ ['}'])

def prettyItems (depth : Nat) : List Json → List Char
  | [] => []
  | [v] => newline depth ++ prettyAt depth v
  | v :: w :: vs => newline depth ++ prettyAt depth v ++ ',' :: prettyItems depth (w :: vs)

def prettyMembers (depth : Nat) : List (List Char × Json) → List Char
  | [] => []
  | [(k, v)] => newline depth ++ (Token.string k).text ++ [':', ' '] ++ prettyAt depth v
  | (k, v) :: m :: ms =>
    newline depth ++ (Token.string k).text ++ [':', ' '] ++ prettyAt depth v ++
      ',' :: prettyMembers depth (m :: ms)

end

def pretty (v : Json) : List Char := prettyAt 0 v

def insertMember (m : List Char × Json) : List (List Char × Json) → List (List Char × Json)
  | [] => [m]
  | n :: ns => if m.1 < n.1 then m :: n :: ns else n :: insertMember m ns

mutual

/-- The same document with the members of every object in the order of their keys. -/
def sortKeys : Json → Json
  | .array items => .array (sortItems items)
  | .object members => .object (sortMembers members)
  | v => v

def sortItems : List Json → List Json
  | [] => []
  | v :: vs => sortKeys v :: sortItems vs

def sortMembers : List (List Char × Json) → List (List Char × Json)
  | [] => []
  | (k, v) :: ms => insertMember (k, sortKeys v) (sortMembers ms)

end

end SceneExpr.Json
