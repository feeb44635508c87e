import SceneExpr.Catalog.Signature
import Std.Data.TreeMap

namespace SceneExpr

/-- What identifies a function among all others. -/
structure Key where
  returns : ValueKind
  scope : Scope
  owner : String
  name : String
deriving DecidableEq, Repr

namespace Key

def ofSignature (s : Signature) : Key := ⟨s.returns, s.scope, s.owner, s.name⟩

def kindRank : ValueKind → Nat
  | .number => 0
  | .text => 1

def scopeRank : Scope → Nat
  | .static => 0
  | .object => 1
  | .behavior => 2

def order : Key → Key → Ordering :=
  compareLex (compareOn fun k => kindRank k.returns) <|
    compareLex (compareOn fun k => scopeRank k.scope) <|
      compareLex (compareOn (·.owner)) (compareOn (·.name))

theorem kindRank_inj {a b : ValueKind} (h : kindRank a = kindRank b) : a = b := by
  cases a <;> cases b <;> simp_all [kindRank]

theorem scopeRank_inj {a b : Scope} (h : scopeRank a = scopeRank b) : a = b := by
  cases a <;> cases b <;> simp_all [scopeRank]

instance : Std.TransCmp order := by
  unfold order
  infer_instance

instance : Std.LawfulEqCmp order where
  eq_of_compare {a b} h := by
    simp only [order, compareLex, compareOn, Ordering.then_eq_eq, Std.compare_eq_iff_eq] at h
    obtain ⟨hr, hs, ho, hn⟩ := h
    have hr := kindRank_inj hr
    have hs := scopeRank_inj hs
    cases a
    cases b
    simp_all

end Key

/-- Positions of functions under their keys; of several functions with one key the last counts. -/
abbrev Index := Std.TreeMap Key Nat Key.order

namespace Index

def enter (index : Index) (position : Nat) : List Signature → Index
  | [] => index
  | s :: ss => enter (index.insert (Key.ofSignature s) position) (position + 1) ss

def ofFunctions (functions : List Signature) : Index := enter {} 0 functions

end Index

structure Catalog where
  formatVersion : String
  functions : List Signature
  index : Index
  index_eq : index = Index.ofFunctions functions

namespace Catalog

def defaultVersion : String := "0.1.0"

/-- A catalog with its index; nothing is checked. -/
def indexed (formatVersion : String) (functions : List Signature) : Catalog :=
  ⟨formatVersion, functions, Index.ofFunctions functions, rfl⟩

def empty : Catalog := indexed defaultVersion []

def position? (c : Catalog) (k : Key) : Option Nat := c.index[k]?

def find? (c : Catalog) (k : Key) : Option Signature := (c.position? k).bind (c.functions[·]?)

def static? (c : Catalog) (returns : ValueKind) (name : String) : Option Signature :=
  c.find? ⟨returns, .static, "", name⟩

/-- A function of objects of the given type, or else one that every object has. -/
def object? (c : Catalog) (returns : ValueKind) (type name : String) : Option Signature :=
  c.find? ⟨returns, .object, type, name⟩ <|> c.find? ⟨returns, .object, "", name⟩

def behavior? (c : Catalog) (returns : ValueKind) (type name : String) : Option Signature :=
  c.find? ⟨returns, .behavior, type, name⟩

def lookup? (c : Catalog) (scope : Scope) (returns : ValueKind)
    (owner name : String) : Option Nat :=
  match scope with
  | .static => c.position? ⟨returns, .static, "", name⟩
  | .object =>
    c.position? ⟨returns, .object, owner, name⟩ <|> c.position? ⟨returns, .object, "", name⟩
  | .behavior => c.position? ⟨returns, .behavior, owner, name⟩

end Catalog

end SceneExpr
