import SceneExpr.Json.Basic
import SceneExpr.Json.Token

namespace SceneExpr.Json

/-- An unfinished array or object, latest part first; one of them may wait for the value of a
key. -/
inductive Frame where
  | array (items : List Json)
  | object (members : List (List Char × Json))
  | member (members : List (List Char × Json)) (key : List Char)

/-- What may come next. -/
inductive Goal where
  | value
  | firstItem
  | firstKey
  | key
  | colon
  | separator
  | done (document : Json)

/-- Puts a finished value where it belongs. -/
def settle (stack : List Frame) (v : Json) : List Frame × Goal :=
  match stack with
  | .array items :: below => (.array (v :: items) :: below, .separator)
  | .member members key :: below => (.object ((key, v) :: members) :: below, .separator)
  | _ => ([], .done v)

def beginValue? (stack : List Frame) : Token → Option (List Frame × Goal)
  | .null => some (settle stack .null)
  | .bool b => some (settle stack (.bool b))
  | .number lexeme => some (settle stack (.number lexeme))
  | .string body => some (settle stack (.string body))
  | .openArray => some (.array [] :: stack, .firstItem)
  | .openObject => some (.object [] :: stack, .firstKey)
  | _ => none

def close? : List Frame → Token → Option (List Frame × Goal)
  | .array items :: below, .closeArray => some (settle below (.array items.reverse))
  | .object members :: below, .closeObject => some (settle below (.object members.reverse))
  | _, _ => none

def beginKey? : List Frame → Token → Option (List Frame × Goal)
  | .object members :: below, .string body => some (.member members body :: below, .colon)
  | _, _ => none

def step? (stack : List Frame) : Goal → Token → Option (List Frame × Goal)
  | .value, t => beginValue? stack t
  | .firstItem, t => if t = .closeArray then close? stack t else beginValue? stack t
  | .firstKey, t => if t = .closeObject then close? stack t else beginKey? stack t
  | .key, t => beginKey? stack t
  | .colon, t => if t = .colon then some (stack, .value) else none
  | .separator, .comma =>
    match stack with
    | .array _ :: _ => some (stack, .value)
    | .object _ :: _ => some (stack, .key)
    | _ => none
  | .separator, t => close? stack t
  | .done _, _ => none

def read? (stack : List Frame) (goal : Goal) : List Token → Option Json
  | [] =>
    match goal with
    | .done document => some document
    | _ => none
  | t :: ts =>
    match step? stack goal t with
    | none => none
    | some (stack, goal) => read? stack goal ts

def ofTokens? (ts : List Token) : Option Json := read? [] .value ts

/-- The document that a text holds; refused is all that strict JSON refuses. -/
def parse? (cs : List Char) : Option Json := (tokens? cs).bind ofTokens?

end SceneExpr.Json
