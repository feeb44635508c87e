namespace SceneExpr.Command

/-- An option; one that takes a value says which values it accepts. -/
structure Flag where
  name : String
  short : Option Char := none
  value : Option (String → Bool) := none

/-- What may occur in a level: options, so many operands, and commands, one of which ends the
level. -/
structure Level where
  flags : List Flag
  operands : Nat
  commands : List String

/-- What a level holds. An option without value is given the empty one. -/
structure Words where
  options : List (String × String) := []
  operands : List String := []

inductive Reading where
  | refused
  | immediate (name : String)
  | ended (words : Words)
  | command (words : Words) (name : String) (rest : List String)

def immediateNames : List String := ["help", "version"]

namespace Words

def note (w : Words) (flag : Flag) (value : String) : Option Words :=
  if (w.options.lookup flag.name).isSome then none
  else if flag.value.any fun accepts => !accepts value then none
  else some { w with options := w.options ++ [(flag.name, value)] }

end Words

inductive OptionWord where
  | refused
  | immediate (name : String)
  | complete (words : Words)
  | awaits (words : Words) (flag : Flag)

namespace Level

/-- A word that starts with two hyphens; a value may be joined to it by an equals sign. -/
def longWord (l : Level) (w : Words) (word : List Char) : OptionWord :=
  let name := String.ofList (word.takeWhile (· ≠ '='))
  let joined := word.dropWhile (· ≠ '=')
  match l.flags.find? fun f => f.name = name with
  | none => .refused
  | some flag =>
    match flag.value, joined with
    | none, [] =>
      if immediateNames.contains name then .immediate name
      else (w.note flag "").elim .refused .complete
    | none, _ :: _ => .refused
    | some _, [] => .awaits w flag
    | some _, _ :: value => (w.note flag (String.ofList value)).elim .refused .complete

/-- The letters after a single hyphen. What follows a letter that takes a value is the value, with
or without an equals sign. -/
def shortWord (l : Level) (w : Words) : List Char → OptionWord
  | [] => .complete w
  | c :: cs =>
    match l.flags.find? fun f => f.short = some c with
    | none => .refused
    | some flag =>
      match flag.value with
      | none =>
        if immediateNames.contains flag.name then .immediate flag.name
        else
          match w.note flag "" with
          | none => .refused
          | some w => shortWord l w cs
      | some _ =>
        match cs with
        | [] => .awaits w flag
        | '=' :: value => (w.note flag (String.ofList value)).elim .refused .complete
        | value => (w.note flag (String.ofList value)).elim .refused .complete

def readOperands (l : Level) (w : Words) (words : List String) : Reading :=
  let operands := w.operands ++ words
  if operands.length ≤ l.operands then .ended { w with operands := operands } else .refused

/-- Whether a word can be a value of its own: it starts with no hyphen, or is nothing but one. -/
def isPlain (word : String) : Bool :=
  match word.toList with
  | '-' :: _ :: _ => false
  | _ => true

def readFrom (l : Level) (w : Words) : List String → Reading
  | [] => .ended w
  | word :: words =>
    match word.toList with
    | ['-', '-'] => readOperands l w words
    | '-' :: c :: cs =>
      let read := if c = '-' then longWord l w cs else shortWord l w (c :: cs)
      match read with
      | .refused => .refused
      | .immediate name => .immediate name
      | .complete w => readFrom l w words
      | .awaits w flag =>
        match words with
        | [] => .refused
        | value :: words =>
          if isPlain value then
            match w.note flag value with
            | none => .refused
            | some w => readFrom l w words
          else .refused
    | _ =>
      if l.commands.contains word then .command w word words
      else if w.operands.length < l.operands then
        readFrom l { w with operands := w.operands ++ [word] } words
      else .refused

def read (l : Level) (words : List String) : Reading := readFrom l {} words

end Level

end SceneExpr.Command
