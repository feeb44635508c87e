import SceneExpr.Call

namespace SceneExpr

mutual

inductive Tree where
  | node (kind : ValueKind) (fragments : List Fragment)

inductive Fragment where
  | constant (text : String)
  | literal (value : String) (span : Span)
  | call (call : Call Tree)

end

namespace Tree

def kind : Tree → ValueKind
  | .node kind _ => kind

def fragments : Tree → List Fragment
  | .node _ fragments => fragments

def calls (t : Tree) : List (Call Tree) :=
  t.fragments.filterMap fun f =>
    match f with
    | .call call => some call
    | _ => none

mutual

def callCount : Tree → Nat
  | .node _ fragments => fragmentsCallCount fragments

def fragmentsCallCount : List Fragment → Nat
  | [] => 0
  | f :: fs => fragmentCallCount f + fragmentsCallCount fs

def fragmentCallCount : Fragment → Nat
  | .constant _ => 0
  | .literal _ _ => 0
  | .call ⟨_, _, arguments, _⟩ => 1 + argumentsCallCount arguments

def argumentsCallCount : List (Argument Tree) → Nat
  | [] => 0
  | a :: as => argumentCallCount a + argumentsCallCount as

def argumentCallCount : Argument Tree → Nat
  | .raw _ => 0
  | .parsed _ _ tree => callCount tree

end

end Tree

end SceneExpr
