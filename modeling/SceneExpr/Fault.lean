import SceneExpr.Diagnostic.Basic

namespace SceneExpr

inductive ErrorKind where
  | unterminatedLiteral
  | unbalancedParentheses
  | missingArgumentList
  | arityMismatch
  | unknownFunction
  | missingConcatenationOperator
  | emptyOrInvalidExpression
  | unexpectedText
  | nestingTooDeep
deriving DecidableEq, Repr

namespace ErrorKind

def all : List ErrorKind :=
  [.unterminatedLiteral, .unbalancedParentheses, .missingArgumentList, .arityMismatch,
    .unknownFunction, .missingConcatenationOperator, .emptyOrInvalidExpression, .unexpectedText,
    .nestingTooDeep]

def tag : ErrorKind → String
  | .unterminatedLiteral => "unterminatedLiteral"
  | .unbalancedParentheses => "unbalancedParentheses"
  | .missingArgumentList => "missingArgumentList"
  | .arityMismatch => "arityMismatch"
  | .unknownFunction => "unknownFunction"
  | .missingConcatenationOperator => "missingConcatenationOperator"
  | .emptyOrInvalidExpression => "emptyOrInvalidExpression"
  | .unexpectedText => "unexpectedText"
  | .nestingTooDeep => "nestingTooDeep"

def ofTag? (tag : String) : Option ErrorKind := all.find? fun k => k.tag = tag

@[simp] theorem ofTag?_tag (k : ErrorKind) : ofTag? k.tag = some k := by
  cases k <;> rfl

def code : ErrorKind → Code
  | .unterminatedLiteral => Code.unterminatedLiteral
  | .unbalancedParentheses => Code.unbalancedParentheses
  | .missingArgumentList => Code.missingArgumentList
  | .arityMismatch => Code.arityMismatch
  | .unknownFunction => Code.unknownFunction
  | .missingConcatenationOperator => Code.missingConcatenationOperator
  | .emptyOrInvalidExpression => Code.emptyOrInvalidExpression
  | .unexpectedText => Code.unexpectedText
  | .nestingTooDeep => Code.nestingTooDeep

end ErrorKind

structure ParseError where
  kind : ErrorKind
  span : Span
  message : String
  context : Context
deriving DecidableEq, Repr

namespace ParseError

/-- An error with the message of the given variant, or else of the default one, or else the bare
code. -/
def new (kind : ErrorKind) (span : Span) (variant : String) (ctx : Context) : ParseError where
  kind := kind
  span := span
  message :=
    (kind.code.render? variant ctx <|> kind.code.render? "default" ctx).getD kind.code.id
  context := ctx

def position (e : ParseError) : Nat := e.span.start

/-- The same error, seen from a text that holds the present one at octet `n`. -/
def shift (e : ParseError) (n : Nat) : ParseError := { e with span := e.span.shift n }

def relocate (e : ParseError) (span : Span) : ParseError := { e with span := span }

def toDiagnostic (e : ParseError) : Diagnostic :=
  let plain : Diagnostic := {
    id := e.kind.code.id
    severity := e.kind.code.severity
    message := e.message
    span := some e.span
    context := none }
  plain.withContext e.context

end ParseError

inductive Fault where
  | unterminatedLiteral
  | unclosedList (function : String)
  | missingList (function : String)
  | arity (function : String) (min max actual : Nat)
  | unknownStatic (function : String)
  | unknownMember (function object : String)
  | notAttached (function object behavior : String)
  | missingPlus
  | doubledPlus
  | emptyExpression
  | unexpectedText (text : String)
  | trailingText (text : String)
  | tooDeep (limit : Nat)
deriving DecidableEq, Repr

namespace Fault

def kind : Fault → ErrorKind
  | .unterminatedLiteral => .unterminatedLiteral
  | .unclosedList _ => .unbalancedParentheses
  | .missingList _ => .missingArgumentList
  | .arity .. => .arityMismatch
  | .unknownStatic _ | .unknownMember .. | .notAttached .. => .unknownFunction
  | .missingPlus | .doubledPlus => .missingConcatenationOperator
  | .emptyExpression => .emptyOrInvalidExpression
  | .unexpectedText _ | .trailingText _ => .unexpectedText
  | .tooDeep _ => .nestingTooDeep

def variant : Fault → String
  | .unterminatedLiteral | .missingList _ | .emptyExpression | .unexpectedText _ | .tooDeep _ =>
    "default"
  | .unclosedList function => if function = "" then "anonymous" else "default"
  | .arity _ min max _ => if min = max then "exact" else "default"
  | .unknownStatic _ => "static"
  | .unknownMember .. => "object"
  | .notAttached .. => "behaviorNotAttached"
  | .missingPlus => "missing"
  | .doubledPlus => "doubled"
  | .trailingText _ => "trailing"

def context : Fault → Context
  | .unterminatedLiteral | .missingPlus | .doubledPlus | .emptyExpression => []
  | .unclosedList function => if function = "" then [] else [("function", function)]
  | .missingList function | .unknownStatic function => [("function", function)]
  | .arity function min max actual =>
    [("actual", toString actual), ("function", function), ("max", toString max),
      ("min", toString min)]
  | .unknownMember function object => [("function", function), ("object", object)]
  | .notAttached function object behavior =>
    [("behavior", behavior), ("function", function), ("object", object)]
  | .unexpectedText text | .trailingText text => [("text", text)]
  | .tooDeep limit => [("limit", toString limit)]

theorem ascending_context (f : Fault) : f.context.Ascending := by
  refine List.pairwise_map.1 (?_ : (f.context.map Prod.fst).Pairwise (· < ·))
  cases f <;> simp only [context, List.map_cons, List.map_nil]
  case unclosedList function =>
    split
    · exact .nil
    · exact List.pairwise_singleton _ _
  all_goals decide

def error (f : Fault) (span : Span) : ParseError := .new f.kind span f.variant f.context

end Fault

end SceneExpr
