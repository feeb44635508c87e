import SceneExpr.Catalog.Signature
import SceneExpr.Command.Level
import SceneExpr.Options

namespace SceneExpr.Command

inductive OutputMode where
  | pretty
  | json
deriving DecidableEq, Repr

def OutputMode.ofTag? (tag : String) : Option OutputMode :=
  match tag with
  | "pretty" => some .pretty
  | "json" => some .json
  | _ => none

structure Settings where
  output : OutputMode := .json
  catalog : Option String := none
  scene : Option String := none
deriving DecidableEq, Repr

inductive Source where
  | inline (text : String)
  | standardInput
  | file (path : String)
deriving DecidableEq, Repr

structure ExpressionRequest where
  source : Source
  kind : ValueKind := .number
  options : Options := {}
deriving DecidableEq, Repr

structure Filter where
  scope : Option Scope := none
  owner : Option String := none
  returns : Option ValueKind := none
deriving DecidableEq, Repr

inductive Action where
  | parse (request : ExpressionRequest)
  | check (request : ExpressionRequest)
  | functions (filter : Filter)
  | explain (id : String)
deriving DecidableEq, Repr

inductive Invocation where
  | help
  | version
  | act (settings : Settings) (action : Action)
deriving DecidableEq, Repr

namespace Invocation

/-- A whole number below 2^64, which a plus sign may precede. -/
def depth? (s : String) : Option Nat :=
  let digits :=
    match s.toList with
    | '+' :: cs => cs
    | cs => cs
  if digits ≠ [] ∧ digits.all Char.isDigit ∧ Json.natOfDigits digits < UInt64.size then
    some (Json.natOfDigits digits)
  else none

def anyValue : String → Bool := fun _ => true

def helpFlag : Flag := ⟨"help", some 'h', none⟩

def sharedFlags : List Flag := [
  ⟨"output", none, some fun v => (OutputMode.ofTag? v).isSome⟩,
  ⟨"catalog", none, some anyValue⟩,
  ⟨"scene", none, some anyValue⟩,
  ⟨"verbose", some 'v', none⟩,
  helpFlag]

def commandNames : List String := ["parse", "check", "functions", "explain"]

def programLevel : Level where
  flags := sharedFlags ++ [⟨"version", some 'V', none⟩]
  operands := 0
  commands := commandNames ++ ["help"]

def expressionLevel : Level where
  flags := sharedFlags ++ [
    ⟨"expr", some 'e', some anyValue⟩,
    ⟨"kind", none, some fun v => (ValueKind.ofTag? v).isSome⟩,
    ⟨"strict", none, none⟩,
    ⟨"max-depth", none, some fun v => (depth? v).isSome⟩]
  operands := 1
  commands := []

def functionsLevel : Level where
  flags := sharedFlags ++ [
    ⟨"scope", none, some fun v => (Scope.ofTag? v).isSome⟩,
    ⟨"owner", none, some anyValue⟩,
    ⟨"returns", none, some fun v => (ValueKind.ofTag? v).isSome⟩]
  operands := 0
  commands := []

def explainLevel : Level where
  flags := sharedFlags
  operands := 1
  commands := []

/-- The settings of a line; those given to the command itself prevail. -/
def settings (program command : Words) : Settings :=
  let value (name : String) := command.options.lookup name <|> program.options.lookup name
  { output := ((value "output").bind OutputMode.ofTag?).getD .json
    catalog := value "catalog"
    scene := value "scene" }

/-- The expression is given either inline or by the name of a file, a hyphen being standard
input. -/
def source? (w : Words) : Option Source :=
  match w.options.lookup "expr", w.operands with
  | some text, [] => some (.inline text)
  | none, ["-"] => some .standardInput
  | none, [path] => some (.file path)
  | _, _ => none

def request? (w : Words) : Option ExpressionRequest := do
  let source ← source? w
  let plain : Options := {}
  return {
    source := source
    kind := ((w.options.lookup "kind").bind ValueKind.ofTag?).getD .number
    options := {
      unknownFunctions :=
        if (w.options.lookup "strict").isSome then .builtinsOnly else plain.unknownFunctions
      maxDepth := ((w.options.lookup "max-depth").bind depth?).getD plain.maxDepth } }

def filter (w : Words) : Filter where
  scope := (w.options.lookup "scope").bind Scope.ofTag?
  owner := w.options.lookup "owner"
  returns := (w.options.lookup "returns").bind ValueKind.ofTag?

def commandLevel? (name : String) : Option (Level × (Words → Option Action)) :=
  match name with
  | "parse" => some (expressionLevel, fun w => (request? w).map .parse)
  | "check" => some (expressionLevel, fun w => (request? w).map .check)
  | "functions" => some (functionsLevel, fun w => some (.functions (filter w)))
  | "explain" => some (explainLevel, fun w => w.operands.head?.map .explain)
  | _ => none

/-- The names after the command for help have to be those of a command. -/
def help? (names : List String) : Option Invocation :=
  match names with
  | [] => some .help
  | [name] => if programLevel.commands.contains name then some .help else none
  | _ => none

def ofImmediate (name : String) : Invocation := if name = "version" then .version else .help

/-- What a command line asks for; none if it is refused. -/
def ofWords? (words : List String) : Option Invocation :=
  match programLevel.read words with
  | .refused | .ended _ => none
  | .immediate name => some (ofImmediate name)
  | .command program name rest =>
    match commandLevel? name with
    | none => help? rest
    | some (level, action) =>
      match level.read rest with
      | .refused | .command .. => none
      | .immediate name => some (ofImmediate name)
      | .ended command => (action command).map (.act (settings program command))

def files : Invocation → List String
  | .help | .version => []
  | .act settings action =>
    let request : List String :=
      match action with
      | .parse ⟨.file path, _, _⟩ | .check ⟨.file path, _, _⟩ => [path]
      | _ => []
    settings.catalog.toList ++ settings.scene.toList ++ request

def readsInput : Invocation → Bool
  | .act _ (.parse ⟨.standardInput, _, _⟩) | .act _ (.check ⟨.standardInput, _, _⟩) => true
  | _ => false

end Invocation

end SceneExpr.Command
