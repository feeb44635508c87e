import SceneExpr.Tree.Basic

namespace SceneExpr.Tree

mutual

def outlineAt (depth : Nat) : Tree → List String
  | .node _ fragments => outlineFragments depth fragments

def outlineFragments (depth : Nat) : List Fragment → List String
  | [] => []
  | f :: fs => outlineFragment depth f ++ outlineFragments depth fs

def outlineFragment (depth : Nat) : Fragment → List String
  | .constant text => [s!"{depth} constant {text}"]
  | .literal value span => [s!"{depth} literal {span.start}..{span.stop} {value}"]
  | .call ⟨target, function, arguments, span⟩ =>
    s!"{depth} call {span.start}..{span.stop} {target.scope.tag} {function}" ::
      outlineArguments depth arguments

def outlineArguments (depth : Nat) : List (Argument Tree) → List String
  | [] => []
  | a :: as => outlineArgument depth a ++ outlineArguments depth as

def outlineArgument (depth : Nat) : Argument Tree → List String
  | .raw text => [s!"{depth} argument {text}"]
  | .parsed _ source tree => s!"{depth} argument {source}" :: outlineAt (depth + 1) tree

end

def outline (t : Tree) : List String := outlineAt 0 t

end SceneExpr.Tree
