import SceneExpr.Call
import SceneExpr.CallSite.Arguments

namespace SceneExpr

/-- Where the source of an argument comes from: the author wrote it, from octet `start` on, or a
call whose opening parenthesis has the span `list` puts it in. -/
inductive Origin where
  | written (start : Nat)
  | standIn (list : Span)
deriving DecidableEq, Repr

/-- An error inside an argument, as seen from the call. -/
def Origin.locate (o : Origin) (e : ParseError) : ParseError :=
  match o with
  | .written start => e.shift start
  | .standIn list => e.relocate list

def Parameter.neutralValue (p : Parameter) : String :=
  if p.defaultValue ≠ "" then p.defaultValue
  else
    match p.kind.valueKind? with
    | some .number => "0"
    | some .text => "\"\""
    | none => ""

/-- An argument for the parameter, to be parsed if its kind has a grammar. -/
def Parameter.argument (p : Parameter) (text : List Char) (origin : Origin) : Argument Origin :=
  match p.kind.valueKind? with
  | some kind => .parsed kind (String.ofList text) origin
  | none => .raw (String.ofList (trim text))

namespace Binding

/-- Places arguments on parameters in order. A blank argument of an optional parameter is used up,
but the neutral value takes its place; a required parameter for which nothing is left gets the empty
text. -/
def place (list : Span) : List Parameter → List RawArgument → List (Argument Origin)
  | [], _ => []
  | p :: ps, supplied =>
    if p.generatorOnly then .raw "" :: place list ps supplied
    else
      match supplied with
      | a :: as =>
        let bound :=
          if p.optional && a.isBlank then p.argument p.neutralValue.toList (.standIn list)
          else p.argument a.text (.written a.start)
        bound :: place list ps as
      | [] =>
        let text := if p.optional then p.neutralValue.toList else []
        p.argument text (.standIn list) :: place list ps []

/-- The arguments of a call to a function; `name` is the name as written. -/
def bind (signature : Signature) (name : List Char) (list : ArgumentList) :
    Except ParseError (List (Argument Origin)) :=
  let paren : Span := ⟨list.openAt, list.openAt + 1⟩
  let actual := list.arguments.length
  if actual < signature.minArguments ∨ signature.maxArguments < actual then
    .error <| (Fault.arity (String.ofList name) signature.minArguments signature.maxArguments
      actual).error paren
  else .ok (place paren signature.parameters list.arguments)

end Binding

end SceneExpr
