import SceneExpr.Binding
import SceneExpr.Options
import SceneExpr.Resolution

namespace SceneExpr

/-- A piece of a text. Constant text is never empty, and arguments of calls are not parsed yet. -/
inductive Item where
  | constant (text : String)
  | literal (value : String) (span : Span)
  | call (call : Call Origin) (signature : Signature)
deriving DecidableEq, Repr

/-- The items up to the end of the text or up to the error that ends the scan. -/
structure Scan where
  items : List Item
  error : Option ParseError
deriving DecidableEq, Repr

namespace Scan

def finished : Scan := ⟨[], none⟩

def stopped (e : ParseError) : Scan := ⟨[], some e⟩

def cons (i : Item) (s : Scan) : Scan := { s with items := i :: s.items }

def constant (text : List Char) (s : Scan) : Scan :=
  if text = [] then s else s.cons (.constant (String.ofList text))

end Scan

structure Parser where
  catalog : Catalog
  scene : Scene
  options : Options

namespace CallSite

/-- The call of a site that stands for a function, and its argument list. -/
def plan (s : CallSite) (r : Resolution) : Except ParseError (Call Origin × ArgumentList) :=
  match s.arguments with
  | none => .error ((Fault.missingList (String.ofList s.written)).error s.memberSpan)
  | some list =>
    match Binding.bind r.signature s.written list with
    | .error e => .error e
    | .ok arguments => .ok ({
        target := r.target
        function := r.function
        arguments := arguments
        span := ⟨s.start, list.closeAt + 1⟩ }, list)

theorem arguments_of_plan {s : CallSite} {r : Resolution} {call : Call Origin} {list : ArgumentList}
    (h : s.plan r = .ok (call, list)) : s.arguments = some list := by
  unfold plan at h
  split at h
  · simp at h
  next list' hlist =>
    split at h
    · simp at h
    · obtain ⟨-, rfl⟩ := Prod.mk.inj (Except.ok.inj h)
      exact hlist

end CallSite

end SceneExpr
