import SceneExpr.Call
import SceneExpr.CallSite.Basic
import SceneExpr.Catalog.Basic
import SceneExpr.Scene.Basic

namespace SceneExpr

structure Resolution where
  target : Target
  function : String
  signature : Signature
deriving DecidableEq, Repr

inductive Unresolved where
  | notFound
  | notAttached (object behavior : String)
deriving DecidableEq, Repr

/-- Cuts a text at its first pair of colons. -/
def splitBehavior? : List Char → Option (List Char × List Char)
  | ':' :: ':' :: cs => some ([], cs)
  | c :: cs => (splitBehavior? cs).map fun p => (c :: p.1, p.2)
  | [] => none

namespace Resolution

def static (catalog : Catalog) (returns : ValueKind) (member : List Char) :
    Except Unresolved Resolution :=
  let function := String.ofList member
  match catalog.static? returns function with
  | some signature => .ok ⟨.static, function, signature⟩
  | none => .error .notFound

def behavior (catalog : Catalog) (scene : Scene) (returns : ValueKind) (object : String)
    (member : List Char) : Except Unresolved Resolution :=
  match splitBehavior? member with
  | none => .error .notFound
  | some (behavior, function) =>
    let behavior := String.ofList behavior
    let function := String.ofList function
    match (scene.behaviorType? object behavior).bind (catalog.behavior? returns · function) with
    | none => .error .notFound
    | some signature =>
      if scene.hasBehavior object behavior then
        .ok ⟨.behavior object behavior, function, signature⟩
      else .error (.notAttached object behavior)

/-- An object that the scene does not know has the functions of every object. -/
def member (catalog : Catalog) (scene : Scene) (returns : ValueKind) (object : String)
    (member : List Char) : Except Unresolved Resolution :=
  let function := String.ofList member
  match catalog.object? returns ((scene.objectType? object).getD "") function with
  | some signature => .ok ⟨.object object, function, signature⟩
  | none => behavior catalog scene returns object member

def find (catalog : Catalog) (scene : Scene) (returns : ValueKind) (site : CallSite) :
    Except Unresolved Resolution :=
  match site.owner with
  | none => static catalog returns site.member
  | some owner => member catalog scene returns (String.ofList (decodeOwner owner)) site.member

end Resolution

namespace CallSite

def unknown (s : CallSite) (why : Unresolved) : Fault :=
  match why, s.owner with
  | .notAttached object behavior, _ => .notAttached (String.ofList s.written) object behavior
  | .notFound, some owner =>
    .unknownMember (String.ofList s.member) (String.ofList (decodeOwner owner))
  | .notFound, none => .unknownStatic (String.ofList s.written)

end CallSite

end SceneExpr
