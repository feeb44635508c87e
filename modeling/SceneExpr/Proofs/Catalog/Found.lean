import Mathlib.Data.Option.Basic
import SceneExpr.Catalog.Validation
import SceneExpr.Proofs.Call.Place
import Std.Data.TreeMap.Lemmas

namespace SceneExpr

/-- A position in the index was there before or is that of an entry with the key. -/
theorem Index.exists_of_getElem?_enter {index : Index} {position : Nat} {functions : List Signature}
    {k : Key} {i : Nat} (h : (enter index position functions)[k]? = some i) :
    index[k]? = some i ∨
      ∃ j s, functions[j]? = some s ∧ i = position + j ∧ Key.ofSignature s = k := by
  induction functions generalizing index position with
  | nil => exact .inl h
  | cons s functions ih =>
    rcases ih h with h | ⟨j, s', hs', rfl, hk⟩
    · rw [Std.TreeMap.getElem?_insert] at h
      split at h
      next heq =>
        refine .inr ⟨0, s, rfl, ?_, Std.LawfulEqCmp.eq_of_compare heq⟩
        rw [Nat.add_zero, Option.some.inj h]
      next => exact .inl h
    · exact .inr ⟨j + 1, s', hs', by omega, hk⟩

namespace Catalog

variable {c : Catalog} {kind : ValueKind} {s : Signature}

/-- What is found under a key is an entry with that key. -/
theorem mem_of_find? {k : Key} (h : c.find? k = some s) :
    s ∈ c.functions ∧ Key.ofSignature s = k := by
  obtain ⟨i, hi, hs⟩ := Option.bind_eq_some_iff.1 h
  rw [position?, c.index_eq] at hi
  rcases Index.exists_of_getElem?_enter hi with h | ⟨j, s', hs', rfl, hk⟩
  · simp at h
  · rw [Nat.zero_add, hs'] at hs
    obtain rfl := Option.some.inj hs
    exact ⟨List.mem_of_getElem? hs', hk⟩

structure Lists (c : Catalog) (kind : ValueKind) (scope : Scope) (name : String) (s : Signature) :
    Prop where
  mem : s ∈ c.functions
  returns_eq : s.returns = kind
  scope_eq : s.scope = scope
  name_eq : s.name = name

theorem lists_of_find? {scope : Scope} {owner name : String}
    (h : c.find? ⟨kind, scope, owner, name⟩ = some s) : c.Lists kind scope name s := by
  obtain ⟨hmem, hk⟩ := mem_of_find? h
  obtain ⟨hreturns, hscope, -, hname⟩ := Key.mk.inj hk
  exact ⟨hmem, hreturns, hscope, hname⟩

theorem lists_of_object? {type name : String} (h : c.object? kind type name = some s) :
    c.Lists kind .object name s := by
  rcases (Option.orElse_eq_some _ _ _).1 h with h | ⟨-, h⟩ <;> exact lists_of_find? h

theorem flaw?_eq_none_of_validateFrom {index : Nat} {seen : List Key} {functions : List Signature}
    (h : validateFrom index seen functions = .ok ()) (hs : s ∈ functions) : s.flaw? = none := by
  induction functions generalizing index seen with
  | nil => simp at hs
  | cons s' functions ih =>
    rw [validateFrom] at h
    split at h
    · simp at h
    next hflaw =>
      split at h
      · simp at h
      · rcases List.mem_cons.1 hs with rfl | hs
        · exact hflaw
        · exact ih h hs

/-- No function of a valid catalog is nameless. -/
theorem name_ne_empty (h : c.validate = .ok ()) (hs : s ∈ c.functions) : s.name ≠ "" := by
  intro hname
  have hflaw := flaw?_eq_none_of_validateFrom h hs
  simp [Signature.flaw?, hname] at hflaw

end Catalog

namespace Resolution

/-- What is found is listed in the catalog, and a behavior that is called is attached to its
object. -/
structure Fits (catalog : Catalog) (scene : Scene) (kind : ValueKind) (r : Resolution) : Prop where
  lists : catalog.Lists kind r.target.scope r.function r.signature
  attached : ∀ object behavior, r.target = .behavior object behavior →
    scene.hasBehavior object behavior = true

variable {catalog : Catalog} {scene : Scene} {kind : ValueKind} {r : Resolution}

theorem fits_of_static {name : List Char} (h : static catalog kind name = .ok r) :
    r.Fits catalog scene kind := by
  unfold static at h
  dsimp only at h
  split at h
  next s hs =>
    obtain rfl := Except.ok.inj h
    exact ⟨Catalog.lists_of_find? hs, by simp⟩
  next => simp at h

theorem fits_of_behavior {object : String} {name : List Char}
    (h : behavior catalog scene kind object name = .ok r) : r.Fits catalog scene kind := by
  unfold behavior at h
  split at h
  · simp at h
  next behavior function _ =>
    dsimp only at h
    split at h
    · simp at h
    next s hs =>
      obtain ⟨type, -, hs⟩ := Option.bind_eq_some_iff.1 hs
      split at h
      next hattached =>
        obtain rfl := Except.ok.inj h
        refine ⟨Catalog.lists_of_find? hs, ?_⟩
        intro object' behavior' htarget
        obtain ⟨rfl, rfl⟩ := Target.behavior.inj htarget
        exact hattached
      next => simp at h

theorem fits_of_member {object : String} {name : List Char}
    (h : member catalog scene kind object name = .ok r) : r.Fits catalog scene kind := by
  unfold member at h
  dsimp only at h
  split at h
  next s hs =>
    obtain rfl := Except.ok.inj h
    exact ⟨Catalog.lists_of_object? hs, by simp⟩
  next => exact fits_of_behavior h

theorem fits_of_find {site : CallSite} (h : find catalog scene kind site = .ok r) :
    r.Fits catalog scene kind := by
  unfold find at h
  split at h
  · exact fits_of_static h
  · exact fits_of_member h

end Resolution

namespace Parser.Reads

variable {p : Parser} {kind : ValueKind} {text : List Char} {c : Call Origin} {s : Signature}

theorem lists (h : p.Reads kind text (.call c s)) :
    p.catalog.Lists kind c.target.scope c.function s := by
  cases h with
  | call _ _ _ _ _ hfind hplan =>
    obtain ⟨-, htarget, hfunction, -, -⟩ := CallSite.eq_of_plan hplan
    rw [htarget, hfunction]
    exact (Resolution.fits_of_find hfind).lists

theorem attached (h : p.Reads kind text (.call c s)) {object behavior : String}
    (hc : c.target = .behavior object behavior) : p.scene.hasBehavior object behavior = true := by
  cases h with
  | call _ _ _ _ _ hfind hplan =>
    obtain ⟨-, htarget, -, -, -⟩ := CallSite.eq_of_plan hplan
    rw [htarget] at hc
    exact (Resolution.fits_of_find hfind).attached object behavior hc

end Parser.Reads

end SceneExpr
