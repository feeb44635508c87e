import SceneExpr.Diagnostic.Template

namespace SceneExpr

inductive Severity where
  | error
  | warn
  | info
deriving DecidableEq, Repr

namespace Severity

def tag : Severity → String
  | .error => "error"
  | .warn => "warn"
  | .info => "info"

def ofTag? (tag : String) : Option Severity :=
  match tag with
  | "error" => some .error
  | "warn" => some .warn
  | "info" => some .info
  | _ => none

@[simp] theorem ofTag?_tag (s : Severity) : ofTag? s.tag = some s := by
  cases s <;> rfl

end Severity

structure Code where
  id : String
  severity : Severity
  explanation : String
  templates : List (String × String)
deriving DecidableEq, Repr

namespace Code

def unterminatedLiteral : Code where
  id := "GDX1001"
  severity := .error
  explanation :=
    "A string literal was opened with a double quote but the expression ends before an " ++
    "unescaped closing quote. Escape embedded quotes as \\\" and close the literal."
  templates := [("default", "unterminated string literal")]

def unbalancedParentheses : Code where
  id := "GDX1002"
  severity := .error
  explanation :=
    "An opening parenthesis has no matching closing parenthesis before the end of the " ++
    "expression. Parentheses inside string literals do not count."
  templates := [
    ("default", "unclosed parenthesis after {function}"),
    ("anonymous", "unclosed parenthesis")]

def missingArgumentList : Code where
  id := "GDX1003"
  severity := .error
  explanation :=
    "Every function call needs parentheses, even when it takes no arguments: write Player.X() " ++
    "rather than Player.X."
  templates := [("default", "{function} must be followed by a parenthesized argument list")]

def arityMismatch : Code where
  id := "GDX1101"
  severity := .error
  explanation :=
    "The call supplies fewer arguments than the function's required parameters or more than " ++
    "all of its author-visible parameters. Optional parameters may be omitted from the end of " ++
    "the list; generator-only parameters are never written by hand."
  templates := [
    ("default", "{function} expects {min} to {max} arguments, got {actual}"),
    ("exact", "{function} expects {max} arguments, got {actual}")]

def unknownFunction : Code where
  id := "GDX1102"
  severity := .error
  explanation :=
    "The call does not match a static function, a function of the object's type, or a function " ++
    "of a behavior attached to the object. Check the spelling, the object name (use ~ for " ++
    "spaces) and the behavior attachment."
  templates := [
    ("static", "unknown function {function}"),
    ("object", "unknown function {function} for object {object}"),
    ("behaviorNotAttached", "behavior {behavior} is not attached to object {object}")]

def missingConcatenationOperator : Code where
  id := "GDX1201"
  severity := .error
  explanation :=
    "Text expressions are a sequence of string literals and text functions joined with +. Two " ++
    "tokens without a + between them, or two + in a row, are rejected."
  templates := [
    ("missing", "missing + between two text values"),
    ("doubled", "missing text value between two +")]

def emptyOrInvalidExpression : Code where
  id := "GDX1202"
  severity := .error
  explanation :=
    "A text expression must contain at least a string literal between double quotes or a " ++
    "function call."
  templates := [
    ("default", "the expression is empty or invalid: enter a text between quotes or a function")]

def unexpectedText : Code where
  id := "GDX1203"
  severity := .error
  explanation :=
    "Outside of string literals a text expression may only contain function calls, + operators " ++
    "and whitespace."
  templates := [
    ("default", "unexpected {text} outside of a string literal"),
    ("trailing", "unexpected {text} at the end of the expression")]

def nestingTooDeep : Code where
  id := "GDX1301"
  severity := .error
  explanation :=
    "Function arguments are parsed recursively. The nesting depth is capped (see --max-depth) " ++
    "so that pathological input cannot exhaust the stack."
  templates := [("default", "sub-expressions nested deeper than {limit} levels")]

def all : List Code :=
  [unterminatedLiteral, unbalancedParentheses, missingArgumentList, arityMismatch, unknownFunction,
    missingConcatenationOperator, emptyOrInvalidExpression, unexpectedText, nestingTooDeep]

def find? (id : String) : Option Code := all.find? fun c => c.id = id

def template? (c : Code) (variant : String) : Option String := c.templates.lookup variant

def render? (c : Code) (variant : String) (ctx : Context) : Option String :=
  (c.template? variant).map (Template.render ctx)

end Code

end SceneExpr
