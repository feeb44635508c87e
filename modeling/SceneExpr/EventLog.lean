import SceneExpr.Consumer

namespace SceneExpr

/-- What a consumer is told, at the given depth of nesting. -/
inductive Event where
  | constant (depth : Nat) (text : String)
  | literal (depth : Nat) (value : String) (span : Span)
  | call (depth : Nat) (call : Call Nat) (signature : Signature)
  | nested (depth : Nat) (kind : ValueKind) (text : String)
deriving DecidableEq, Repr

abbrev EventLog := List Event

namespace EventLog

/-- Writes events of one depth; `nested` is the value of an argument, given its kind and text. -/
def recorder (depth : Nat) (nested : ValueKind → String → EStateM ParseError EventLog Nat) :
    Consumer EventLog Nat where
  constant text log := log ++ [.constant depth text]
  literal value span log := log ++ [.literal depth value span]
  call call signature log := log ++ [.call depth call signature]
  nested kind text log := nested kind text (log ++ [.nested depth kind text])

def flat (p : Parser) (kind : ValueKind) (text : String) : EStateM ParseError EventLog Unit :=
  p.feed kind text (recorder 0 fun _ _ => pure 0)

/-- Arguments are noted; an exclamation mark in one is an error. -/
def rejecting (p : Parser) (kind : ValueKind) (text : String) : EStateM ParseError EventLog Unit :=
  p.feed kind text <| recorder 0 fun _ text =>
    match text.toList.span (· ≠ '!') with
    | (_, []) => pure 0
    | (before, _ :: _) =>
      throw (.new .unexpectedText ⟨width before, width before + 1⟩ "default" [])

/-- Arguments are parsed into the same log, and their value is the number of events this adds. At
most `limit` levels are entered below `depth`. -/
def recordWithin (p : Parser) : (limit depth : Nat) → ValueKind → String →
    EStateM ParseError EventLog Unit
  | 0, depth, kind, text =>
    p.feed kind text <| recorder depth fun _ text =>
      throw ((Fault.tooDeep depth).error ⟨0, width text.toList⟩)
  | limit + 1, depth, kind, text =>
    p.feed kind text <| recorder depth fun kind text => do
      let before ← get
      recordWithin p limit (depth + 1) kind text
      let after ← get
      return after.length - before.length

/-- A depth that no text exceeds unless default values call each other in a circle: written
arguments get shorter level by level, and no default value needs to be entered twice. -/
def sufficientDepth (p : Parser) (text : String) : Nat :=
  let defaults := p.catalog.functions.flatMap fun s =>
    s.parameters.map fun q => q.defaultValue.length + 1
  text.length + 1 + defaults.foldl (· + ·) 0

def record (p : Parser) (kind : ValueKind) (text : String) : EStateM ParseError EventLog Unit :=
  recordWithin p (sufficientDepth p text) 0 kind text

end EventLog

end SceneExpr
