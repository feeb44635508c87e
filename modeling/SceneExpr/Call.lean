import SceneExpr.Catalog.Signature
import SceneExpr.Span

namespace SceneExpr

/-- Whom a call addresses. -/
inductive Target where
  | static
  | object (object : String)
  | behavior (object behavior : String)
deriving DecidableEq, Repr

namespace Target

def scope : Target → Scope
  | .static => .static
  | .object _ => .object
  | .behavior .. => .behavior

def object? : Target → Option String
  | .static => none
  | .object name | .behavior name _ => some name

def behavior? : Target → Option String
  | .behavior _ name => some name
  | _ => none

end Target

/-- The argument of one declared parameter: a text, or an expression of its own with its source. -/
inductive Argument (α : Type) where
  | raw (text : String)
  | parsed (kind : ValueKind) (source : String) (value : α)
deriving DecidableEq, Repr

namespace Argument

variable {α : Type}

def text : Argument α → String
  | .raw text => text
  | .parsed _ source _ => source

end Argument

/-- A call with one argument for each declared parameter. What a parsed argument carries is its
origin while the call is only planned, and afterwards what a consumer made of it. The function has
its name without owner and behavior, and the span ends with the closing parenthesis. -/
structure Call (α : Type) where
  target : Target
  function : String
  arguments : List (Argument α)
  span : Span
deriving DecidableEq, Repr

end SceneExpr
