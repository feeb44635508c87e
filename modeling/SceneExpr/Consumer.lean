import SceneExpr.Grammar.Basic

namespace SceneExpr

/-- A consumer is told in order what a text holds. `σ` is its state, which keeps what it was told
before a failure, and `α` is what it makes of an argument. Errors of `nested` are relative to the
argument. -/
structure Consumer (σ α : Type) where
  constant : String → σ → σ
  literal : String → Span → σ → σ
  call : Call α → Signature → σ → σ
  nested : ValueKind → String → EStateM ParseError σ α

namespace Consumer

variable {σ α : Type}

def takeArgument (k : Consumer σ α) : Argument Origin → EStateM ParseError σ (Argument α)
  | .raw text => pure (.raw text)
  | .parsed kind source origin => fun s =>
    match k.nested kind source s with
    | .ok value s => .ok (.parsed kind source value) s
    | .error e s => .error (origin.locate e) s

def takeArguments (k : Consumer σ α) :
    List (Argument Origin) → EStateM ParseError σ (List (Argument α))
  | [] => pure []
  | a :: as => do
    let a ← k.takeArgument a
    let as ← k.takeArguments as
    return a :: as

def takeItem (k : Consumer σ α) : Item → EStateM ParseError σ Unit
  | .constant text => modify (k.constant text)
  | .literal value span => modify (k.literal value span)
  | .call call signature => do
    let arguments ← k.takeArguments call.arguments
    modify (k.call ⟨call.target, call.function, arguments, call.span⟩ signature)

def takeItems (k : Consumer σ α) : List Item → EStateM ParseError σ Unit
  | [] => pure ()
  | i :: is => do
    k.takeItem i
    k.takeItems is

def take (k : Consumer σ α) (s : Scan) : EStateM ParseError σ Unit := do
  k.takeItems s.items
  match s.error with
  | none => pure ()
  | some e => throw e

end Consumer

def Parser.feed {σ α : Type} (p : Parser) (kind : ValueKind) (text : String)
    (k : Consumer σ α) :
    EStateM ParseError σ Unit :=
  k.take (p.scan kind text)

end SceneExpr
