import SceneExpr.Consumer
import SceneExpr.Tree.Basic

namespace SceneExpr

namespace Tree

/-- Collects fragments in order; `nested` builds the trees of arguments. -/
def builder (nested : ValueKind → String → Except ParseError Tree) :
    Consumer (List Fragment) Tree where
  constant text fragments := fragments ++ [.constant text]
  literal value span fragments := fragments ++ [.literal value span]
  call call _ fragments := fragments ++ [.call call]
  nested kind text fragments :=
    match nested kind text with
    | .ok tree => .ok tree fragments
    | .error e => .error e fragments

end Tree

namespace Parser

/-- The tree of one text, given a way to build the trees of arguments. -/
def buildWith (p : Parser) (nested : ValueKind → String → Except ParseError Tree)
    (kind : ValueKind) (text : String) : Except ParseError Tree :=
  match p.feed kind text (Tree.builder nested) [] with
  | .ok _ fragments => .ok (.node kind fragments)
  | .error e _ => .error e

/-- The tree of a text whose arguments may be nested `depth` levels deep. -/
def buildWithin (p : Parser) : (depth : Nat) → ValueKind → String → Except ParseError Tree
  | 0 => p.buildWith fun _ text =>
    .error ((Fault.tooDeep p.options.maxDepth).error ⟨0, width text.toList⟩)
  | depth + 1 => p.buildWith (p.buildWithin depth)

def build (p : Parser) : ValueKind → String → Except ParseError Tree :=
  p.buildWithin p.options.maxDepth

end Parser

/-- A tree, or else the diagnostics that tell why there is none. -/
structure ParseResult where
  tree : Option Tree
  diagnostics : List Diagnostic

namespace ParseResult

def isOk (r : ParseResult) : Bool := r.diagnostics.isEmpty

def firstErrorPosition? (r : ParseResult) : Option Nat :=
  (r.diagnostics.head?.bind (·.span)).map (·.start)

end ParseResult

def Parser.parse (p : Parser) (kind : ValueKind) (text : String) : ParseResult :=
  match p.build kind text with
  | .ok tree => ⟨some tree, []⟩
  | .error e => ⟨none, [e.toDiagnostic]⟩

end SceneExpr
