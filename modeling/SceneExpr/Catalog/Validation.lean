import SceneExpr.Catalog.Basic
import SceneExpr.Text.Blank

namespace SceneExpr

inductive EntryFlaw where
  | blankName
  | forbiddenName
  | ownerOfStatic
  | missingOwner
  | emptyBehaviorOwner
deriving DecidableEq, Repr

def EntryFlaw.reason : EntryFlaw → String
  | .blankName => "function name must not be empty"
  | .forbiddenName => "function name must not contain '(', '.', or '::'"
  | .ownerOfStatic => "static functions must not declare an ownerType"
  | .missingOwner => "object and behavior functions need an ownerType"
  | .emptyBehaviorOwner => "behavior functions need a non-empty ownerType"

inductive CatalogError where
  | invalidJson
  | invalidEntry (index : Nat) (name : String) (flaw : EntryFlaw)
  | duplicateEntry (key : Key)
deriving DecidableEq, Repr

def CatalogError.message : CatalogError → String
  | .invalidJson => "invalid catalog JSON"
  | .invalidEntry index name flaw => s!"invalid catalog entry {index} ({name}): {flaw.reason}"
  | .duplicateEntry key =>
    s!"duplicate catalog entry: {key.scope.tag} function {key.name} returning {key.returns.tag} " ++
      s!"for owner '{key.owner}'"

namespace Signature

def hasDoubleColon : List Char → Bool
  | ':' :: ':' :: _ => true
  | _ :: cs => hasDoubleColon cs
  | [] => false

def ownerFlaw? (s : Signature) : Option EntryFlaw :=
  match s.scope, s.ownerType with
  | .static, some _ => some .ownerOfStatic
  | .object, none | .behavior, none => some .missingOwner
  | .behavior, some type => if type = "" then some .emptyBehaviorOwner else none
  | _, _ => none

/-- The first rule for a single entry that the signature breaks. -/
def flaw? (s : Signature) : Option EntryFlaw :=
  let name := s.name.toList
  if name.all isBlank then some .blankName
  else if '(' ∈ name ∨ '.' ∈ name ∨ hasDoubleColon name then some .forbiddenName
  else s.ownerFlaw?

end Signature

namespace Catalog

/-- Checks the entries from position `index` on; `seen` holds the keys of those before. -/
def validateFrom (index : Nat) (seen : List Key) : List Signature → Except CatalogError Unit
  | [] => .ok ()
  | s :: ss =>
    match s.flaw? with
    | some flaw => .error (.invalidEntry index s.name flaw)
    | none =>
      if Key.ofSignature s ∈ seen then .error (.duplicateEntry (Key.ofSignature s))
      else validateFrom (index + 1) (Key.ofSignature s :: seen) ss

def validate (c : Catalog) : Except CatalogError Unit := validateFrom 0 [] c.functions

def new (functions : List Signature) : Except CatalogError Catalog := do
  let catalog := indexed defaultVersion functions
  catalog.validate
  return catalog

end Catalog

end SceneExpr
