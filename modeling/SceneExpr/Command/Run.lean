import SceneExpr.Catalog.Format
import SceneExpr.Catalog.Standard
import SceneExpr.Command.Folder
import SceneExpr.Command.Invocation
import SceneExpr.LineIndex
import SceneExpr.Scene.Format
import SceneExpr.Tree.Format

namespace SceneExpr.Command

/-- What a run can read. -/
structure Surroundings where
  read : String → Except ReadFailure String
  input : String

def Surroundings.inside (working : Folder) (input : String) : Surroundings where
  read := Folder.read (Folder.machine input) working
  input := input

structure Outcome where
  exit : Nat
  output : String
  notes : List String
deriving DecidableEq, Repr

def programVersion : String := "gdexpr 0.1.0"

def colored (color : Nat) (text : String) : String := s!"\x1b[{color}m{text}\x1b[0m"

def cyan : String → String := colored 36

def readFile (s : Surroundings) (what path : String) : Except String String :=
  (s.read path).mapError fun e => s!"failed to read {what} file '{path}': {e.message}"

def loadCatalog (s : Surroundings) (path : Option String) : Except String Catalog :=
  match path with
  | none => .ok .standard
  | some path => do
    let text ← readFile s "catalog" path
    (Catalog.load text.toList).mapError fun e =>
      s!"failed to load catalog file '{path}': {e.message}"

def loadScene (s : Surroundings) (path : Option String) : Except String Scene :=
  match path with
  | none => .ok .empty
  | some path => do
    let text ← readFile s "scene" path
    (Scene.load text.toList).mapError fun e => s!"failed to load scene file '{path}': {e.message}"

/-- Line feeds and carriage returns at the end of an expression are no part of it. -/
def dropLineEnds (text : String) : String :=
  String.ofList (text.toList.reverse.dropWhile fun c => c = '\n' || c = '\r').reverse

def readExpression (s : Surroundings) (source : Source) : Except String String :=
  dropLineEnds <$>
    match source with
    | .inline text => .ok text
    | .standardInput => .ok s.input
    | .file path => readFile s "expression" path

def parseRequest (s : Surroundings) (settings : Settings) (request : ExpressionRequest) :
    Except String (String × ParseResult) := do
  let catalog ← loadCatalog s settings.catalog
  let scene ← loadScene s settings.scene
  let text ← readExpression s request.source
  let parser : Parser := ⟨catalog, scene, request.options⟩
  return (text, parser.parse request.kind text)

def exitCode (result : ParseResult) : Nat :=
  if result.diagnostics.any fun d => d.severity = .error then 1 else 0

def document (v : Json) : String := String.ofList v.sortKeys.pretty ++ "\n"

def counted (color : Nat) (word : String) (n : Nat) : List String :=
  if n = 0 then []
  else [colored color (if n = 1 then s!"{n} {word}" else s!"{n} {word}s")]

def report (diagnostics : List Diagnostic) : List String :=
  let errors := (diagnostics.filter fun d => d.severity = .error).length
  let counts := counted 31 "error" errors ++ counted 33 "warning" (diagnostics.length - errors)
  if counts = [] then [] else diagnostics.map (·.display) ++ [", ".intercalate counts]

def runParse (mode : OutputMode) (result : ParseResult) : Outcome where
  exit := exitCode result
  output :=
    match mode with
    | .json =>
      document <| .record [
        ("expression", Json.orNull (result.tree.map Tree.toJson)),
        ("diagnostics", .array (result.diagnostics.map Diagnostic.toJson))]
    | .pretty =>
      match result.tree with
      | none => ""
      | some tree => tree.dump ++ "\n"
  notes :=
    match mode with
    | .json => []
    | .pretty => report result.diagnostics

/-- The place of the first error, lines and columns counted from one. -/
def errorPlace (text : String) (result : ParseResult) : Json :=
  match result.firstErrorPosition? with
  | none => .null
  | some offset =>
    let found := (LineIndex.ofText text.toList).position offset
    .record [("offset", .ofNat offset), ("line", .ofNat (found.line + 1)),
      ("column", .ofNat (found.column + 1))]

def runCheck (mode : OutputMode) (text : String) (result : ParseResult) : Outcome where
  exit := exitCode result
  output :=
    match mode with
    | .json =>
      document <| .record [
        ("ok", .bool result.isOk),
        ("position", errorPlace text result),
        ("diagnostics", .array (result.diagnostics.map Diagnostic.toJson))]
    | .pretty => ""
  notes :=
    match mode with
    | .json => []
    | .pretty => report result.diagnostics ++ if result.isOk then ["expression ok"] else []

def Filter.admits (f : Filter) (s : Signature) : Bool :=
  f.scope.all (· = s.scope) && f.owner.all (s.ownerType = some ·) &&
    f.returns.all (· = s.returns)

def padTo (n : Nat) (text : String) : String :=
  text ++ String.ofList (List.replicate (n - text.length) ' ')

def listed (s : Signature) : String :=
  let receiver :=
    match s.scope, s.ownerType with
    | .object, some type => if type = "" then "*." else type ++ "."
    | _, _ => ""
  let signature := cyan (receiver ++ s.display)
  s!"{padTo 8 s.scope.tag} {padTo 6 s.returns.tag} {signature}"

def runFunctions (mode : OutputMode) (catalog : Catalog) (filter : Filter) : Outcome :=
  let selected := catalog.functions.filter filter.admits
  match mode with
  | .json =>
    { exit := 0
      output := String.ofList (Json.array (selected.map Signature.toJson)).pretty ++ "\n"
      notes := [] }
  | .pretty =>
    { exit := 0
      output := String.join (selected.map fun s => listed s ++ "\n")
      notes := [s!"{selected.length} of {catalog.functions.length} functions"] }

def runExplain (mode : OutputMode) (id : String) : Outcome :=
  let code := Code.find? id
  let output :=
    match mode, code with
    | .json, _ =>
      document <| .record [
        ("id", .ofText id),
        ("known", .bool code.isSome),
        ("severity", Json.orNull (code.map fun c => .ofText c.severity.tag)),
        ("explanation", Json.orNull (code.map fun c => .ofText c.explanation))]
    | .pretty, some c => s!"{cyan id}: {c.explanation}\n"
    | .pretty, none => s!"{id}: (no explanation available)\n"
  { exit := 0, output := output, notes := [] }

def runAction (s : Surroundings) (settings : Settings) : Action → Except String Outcome
  | .parse request => do
    let (_, result) ← parseRequest s settings request
    return runParse settings.output result
  | .check request => do
    let (text, result) ← parseRequest s settings request
    return runCheck settings.output text result
  | .functions filter => do
    let catalog ← loadCatalog s settings.catalog
    return runFunctions settings.output catalog filter
  | .explain id => return runExplain settings.output id

def failure (mode : OutputMode) (message : String) : Outcome :=
  match mode with
  | .json =>
    let envelope : Json := .record [
      ("error", .ofText "command_failed"), ("message", .ofText message), ("success", .bool false)]
    { exit := 1, output := String.ofList envelope.compact ++ "\n", notes := [] }
  | .pretty => { exit := 1, output := "", notes := [s!"error: {message}"] }

def usage : String :=
  "Parse and check game logic expressions against a function catalog\n\n" ++
    "Usage: gdexpr [OPTIONS] <COMMAND>\n\n" ++
    "Commands:\n" ++
    "  parse      Parse an expression and print its tree\n" ++
    "  check      Check an expression without printing its tree\n" ++
    "  functions  List catalog functions\n" ++
    "  explain    Explain a diagnostic ID (e.g. GDX1101)\n"

def Invocation.run (s : Surroundings) : Invocation → Outcome
  | .help => { exit := 0, output := usage, notes := [] }
  | .version => { exit := 0, output := programVersion ++ "\n", notes := [] }
  | .act settings action =>
    match runAction s settings action with
    | .ok outcome => outcome
    | .error message => failure settings.output message

def refusal : Outcome where
  exit := 2
  output := ""
  notes := ["For more information, try '--help'."]

def execute (words : List String) (s : Surroundings) : Outcome :=
  match Invocation.ofWords? words with
  | none => refusal
  | some invocation => invocation.run s

end SceneExpr.Command
