import SceneExpr.Tree.Build

namespace SceneExpr

/-- A call as it is written down, its scope beside its owners: it may name any owners, whatever its
scope is. -/
structure LooseCall (α : Type) where
  function : String
  scope : Scope
  object : Option String
  behavior : Option String
  arguments : List (Argument α)
  span : Span

mutual

inductive LooseTree where
  | node (kind : ValueKind) (fragments : List LooseFragment)

inductive LooseFragment where
  | constant (text : String)
  | literal (value : String) (span : Span)
  | call (call : LooseCall LooseTree)

end

def Tree.argumentTag : ValueKind → String
  | .number => "numeric"
  | .text => "text"

namespace LooseTree

mutual

def toJson : LooseTree → Json
  | .node kind fragments =>
    .record [("kind", .ofText kind.tag), ("fragments", .array (fragmentsToJson fragments))]

def fragmentsToJson : List LooseFragment → List Json
  | [] => []
  | f :: fs => fragmentToJson f :: fragmentsToJson fs

def fragmentToJson : LooseFragment → Json
  | .constant text => .record [("type", .ofText "constant"), ("text", .ofText text)]
  | .literal value span =>
    .record [("type", .ofText "literal"), ("value", .ofText value), ("span", span.toJson)]
  | .call ⟨function, scope, object, behavior, arguments, span⟩ =>
    .record (
      [("type", .ofText "call"), ("functionName", .ofText function), ("scope", .ofText scope.tag)]
      ++ Json.optional "ownerObject" (object.map .ofText)
      ++ Json.optional "ownerBehavior" (behavior.map .ofText)
      ++ [("arguments", .array (argumentsToJson arguments)), ("span", span.toJson)])

def argumentsToJson : List (Argument LooseTree) → List Json
  | [] => []
  | a :: as => argumentToJson a :: argumentsToJson as

def argumentToJson : Argument LooseTree → Json
  | .raw text => .record [("type", .ofText "raw"), ("text", .ofText text)]
  | .parsed kind source tree =>
    .record [("type", .ofText (Tree.argumentTag kind)), ("source", .ofText source),
      ("parsed", toJson tree)]

end

def dump (t : LooseTree) : String := String.ofList t.toJson.pretty

end LooseTree

namespace Tree

mutual

/-- The same tree; the target of each call is taken apart. -/
def loosen : Tree → LooseTree
  | .node kind fragments => .node kind (loosenFragments fragments)

def loosenFragments : List Fragment → List LooseFragment
  | [] => []
  | f :: fs => loosenFragment f :: loosenFragments fs

def loosenFragment : Fragment → LooseFragment
  | .constant text => .constant text
  | .literal value span => .literal value span
  | .call ⟨target, function, arguments, span⟩ =>
    .call ⟨function, target.scope, target.object?, target.behavior?,
      loosenArguments arguments, span⟩

def loosenArguments : List (Argument Tree) → List (Argument LooseTree)
  | [] => []
  | a :: as => loosenArgument a :: loosenArguments as

def loosenArgument : Argument Tree → Argument LooseTree
  | .raw text => .raw text
  | .parsed kind source tree => .parsed kind source (loosen tree)

end

def toJson (t : Tree) : Json := t.loosen.toJson

def dump (t : Tree) : String := t.loosen.dump

end Tree

namespace ParseResult

def toJson (r : ParseResult) : Json :=
  .record (
    Json.optional "expression" (r.tree.map Tree.toJson)
    ++ [("diagnostics", .array (r.diagnostics.map Diagnostic.toJson))])

def dump (r : ParseResult) : String := String.ofList r.toJson.pretty

end ParseResult

end SceneExpr
