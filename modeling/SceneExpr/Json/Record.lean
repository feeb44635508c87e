import SceneExpr.Json.Basic
import SceneExpr.Json.Escape

namespace SceneExpr.Json

def bool? : Json → Option Bool
  | .bool b => some b
  | _ => none

def text? : Json → Option String
  | .string body => (unescape? body).map String.ofList
  | _ => none

def natOfDigits (ds : List Char) : Nat :=
  ds.foldl (fun n d => n * 10 + (d.toNat - '0'.toNat)) 0

/-- A whole number below 2^64; a fraction, an exponent or a sign disqualifies. -/
def nat? : Json → Option Nat
  | .number lexeme =>
    if lexeme.all Char.isDigit ∧
      natOfDigits lexeme < UInt64.size then some (natOfDigits lexeme) else none
  | _ => none

def array? : Json → Option (List Json)
  | .array items => some items
  | _ => none

def nullable? {α : Type} (read : Json → Option α) : Json → Option (Option α)
  | .null => some none
  | v => (read v).map some

def list? {α : Type} (read : Json → Option α) : Json → Option (List α)
  | .array items => items.mapM read
  | _ => none

def members? : Json → Option (List (String × Json))
  | .object members => members.mapM fun m => (unescape? m.1).map fun k => (String.ofList k, m.2)
  | _ => none

/-- One of several tags, written as a string or as an object that gives the tag the value null. -/
def tag? (v : Json) : Option String :=
  match v with
  | .string _ => text? v
  | .object [(key, .null)] => (unescape? key).map String.ofList
  | _ => none

/-- The fields of a record that are present. Members under other names are skipped; a field given
twice and an array with too many items are refused. -/
def fields? (names : List String) (v : Json) : Option (List (String × Json)) :=
  match v with
  | .array items => if items.length ≤ names.length then some (names.zip items) else none
  | .object _ => do
    let known := (← members? v).filter fun m => names.contains m.1
    if (known.map (·.1)).Nodup then some known else none
  | _ => none

def required? {α : Type} (fields : List (String × Json)) (name : String)
    (read : Json → Option α) : Option α :=
  (fields.lookup name).bind read

def withDefault? {α : Type} (fields : List (String × Json)) (name : String) (default : α)
    (read : Json → Option α) : Option α :=
  match fields.lookup name with
  | none => some default
  | some v => read v

def optional? {α : Type} (fields : List (String × Json)) (name : String)
    (read : Json → Option α) : Option (Option α) :=
  withDefault? fields name none (nullable? read)

end SceneExpr.Json
