import Mathlib.Data.List.Nodup
import SceneExpr.Proofs.Catalog.Search
import SceneExpr.Proofs.Scene.Validity

namespace SceneExpr

/-- Whether an object is a global one, and its position in its list, under its name. -/
abbrev PlaceIndex := Std.HashMap String (Bool × Nat)

namespace PlaceIndex

def enter (index : PlaceIndex) (isGlobal : Bool) (position : Nat) : List SceneObject → PlaceIndex
  | [] => index
  | o :: os => enter (index.insert o.name (isGlobal, position)) isGlobal (position + 1) os

/-- Global objects are entered first, so that those of the scene take their place. -/
def ofObjects (objects globals : List SceneObject) : PlaceIndex :=
  enter (enter {} true 0 globals) false 0 objects

def object? (objects globals : List SceneObject) (place : Bool × Nat) : Option SceneObject :=
  if place.1 then globals[place.2]? else objects[place.2]?

/-- Two indexes that agree still agree when the same objects are entered. -/
theorem map_getElem?_enter {at? : Bool × Nat → Option SceneObject} {places : PlaceIndex}
    {index : ObjectIndex} (h : ∀ name : String, places[name]?.map at? = index[name]?.map some)
    {isGlobal : Bool} {position : Nat} {os : List SceneObject}
    (hos : ∀ j o, os[j]? = some o → at? (isGlobal, position + j) = some o) (name : String) :
    (places.enter isGlobal position os)[name]?.map at? =
      (ObjectIndex.enter index os)[name]?.map some := by
  induction os generalizing places index position with
  | nil => exact h name
  | cons o os ih =>
    apply ih
    · intro other
      rw [Std.HashMap.getElem?_insert, Std.TreeMap.getElem?_insert]
      by_cases hname : o.name = other
      · rw [if_pos (beq_iff_eq.2 hname), if_pos (Std.LawfulEqCmp.compare_eq_iff_eq.2 hname)]
        exact congrArg some (hos 0 o rfl)
      · rw [if_neg (by simpa using hname), if_neg fun heq =>
          hname (Std.LawfulEqCmp.eq_of_compare heq)]
        exact h other
    · intro j p hp
      rw [Nat.add_assoc, Nat.add_comm 1]
      exact hos (j + 1) p hp

end PlaceIndex

namespace Scene

variable {s : Scene} {name : String} {o : SceneObject}

/-- A name leads to a place in one of the lists, and the object at the place is the one that is
found. -/
theorem map_place_eq (s : Scene) (name : String) :
    (PlaceIndex.ofObjects s.objects s.globals)[name]?.map (PlaceIndex.object? s.objects s.globals) =
      (s.object? name).map some := by
  rw [object?, s.index_eq]
  apply PlaceIndex.map_getElem?_enter
  · apply PlaceIndex.map_getElem?_enter
    · intro name
      simp
    · intro j o ho
      rw [PlaceIndex.object?, if_pos rfl, Nat.zero_add, ho]
  · intro j o ho
    rw [PlaceIndex.object?, if_neg (by simp), Nat.zero_add, ho]

/-- Where no name occurs twice, the first object with a name is the only one. -/
theorem find?_name_eq_some_iff {os : List SceneObject} (honce : (os.map (·.name)).Nodup) :
    (os.find? fun p => p.name = name) = some o ↔ o ∈ os ∧ o.name = name := by
  constructor
  · intro h
    exact ⟨List.mem_of_find?_eq_some h, by simpa using List.find?_some h⟩
  · rintro ⟨ho, hname⟩
    cases hfind : os.find? fun p => p.name = name with
    | none => exact absurd hname (by simpa using List.find?_eq_none.1 hfind o ho)
    | some p =>
      have hp : p.name = name := by simpa using List.find?_some hfind
      rw [List.inj_on_of_nodup_map honce (List.mem_of_find?_eq_some hfind) ho (hp.trans hname.symm)]

/-- In a valid scene the object of a name is the first one, objects of the scene before global
ones. -/
theorem object?_eq_find? (h : s.validate = .ok ()) (name : String) :
    s.object? name = s.allObjects.find? fun o => o.name = name := by
  obtain ⟨hobjects, hglobals⟩ := names_of_validate h
  have hnot : name ∉ s.objects.map (·.name) ↔
      (s.objects.find? fun o => o.name = name) = none := by
    simp
  apply Option.ext
  intro o
  rw [object?_eq_some_iff hobjects hglobals, allObjects, List.find?_append, Option.or_eq_some_iff,
    find?_name_eq_some_iff hobjects, find?_name_eq_some_iff hglobals, hnot]

end Scene

/-- An index finds what a search through the list finds: in a catalog the last entry with a key,
which is the only one if the catalog is valid; in a valid scene the first object with a name,
objects of the scene before global ones. -/
theorem find?_eq_search :
    (∀ (c : Catalog) (k : Key),
      c.find? k = (c.functions.filter fun s => Key.ofSignature s = k).getLast? ∧
      c.position? k = (k.last? c.functions).map Prod.snd ∧
      (NestedIndex.ofFunctions c.functions).position? k = c.position? k) ∧
    (∀ (c : Catalog) (kind : ValueKind) (type name : String),
      c.object? kind type name =
        (((⟨kind, .object, type, name⟩ : Key).last? c.functions).or
          ((⟨kind, .object, "", name⟩ : Key).last? c.functions)).map Prod.fst) ∧
    (∀ c : Catalog, c.validate = .ok () → ∀ s ∈ c.functions,
      (c.functions.filter fun t => Key.ofSignature t = Key.ofSignature s) = [s] ∧
      c.find? (Key.ofSignature s) = some s) ∧
    ∀ s : Scene, s.validate = .ok () → ∀ name,
      s.object? name =
        (s.objects.find? fun o => o.name = name).or (s.globals.find? fun o => o.name = name) ∧
      s.object? name = (s.objects ++ s.globals).find? (fun o => o.name = name) ∧
      (PlaceIndex.ofObjects s.objects s.globals)[name]?.map
        (PlaceIndex.object? s.objects s.globals) =
        (s.object? name).map some := by
  refine ⟨?_, ?_, ?_, ?_⟩
  · intro c k
    refine ⟨?_, c.position?_eq_last k, c.nested_position?_eq k⟩
    rw [c.find?_eq_last, Key.map_last?]
  · intro c kind type name
    rw [Catalog.object?, c.find?_eq_last, c.find?_eq_last, Option.map_or, Option.orElse_eq_orElse,
      Option.orElse_eq_or]
  · intro c h s hs
    exact ⟨Catalog.filter_key_eq_singleton h hs, Catalog.find?_of_mem h hs⟩
  · intro s h name
    have hfind := Scene.object?_eq_find? h name
    refine ⟨?_, hfind, s.map_place_eq name⟩
    rw [hfind, Scene.allObjects, List.find?_append]

/-- An entry of every object beside one of a type, and an object of the scene beside a global one of
its name. -/
theorem find?_eq_search_shadowed :
    let base : Signature :=
      { name := "Y", scope := .object, ownerType := some "", returns := .number }
    let sprite : Signature :=
      { name := "Y", scope := .object, ownerType := some "Sprite", returns := .number }
    let c := Catalog.indexed "1.0" [base, sprite]
    let o : SceneObject := ⟨"Both", "Sprite", []⟩
    let s := Scene.indexed [o] [⟨"Hud", "Text", []⟩, ⟨"Both", "Text", []⟩]
    c.validate = .ok () ∧ base ∈ c.functions ∧ c.find? (Key.ofSignature base) = some base ∧
      c.object? .number "Sprite" "Y" = some sprite ∧ c.object? .number "Text" "Y" = some base ∧
      s.validate = .ok () ∧ s.object? "Both" = some o := by
  intro base sprite c o s
  have hc : c.validate = .ok () := by decide
  have hs : s.validate = .ok () := by cbv
  have hbase : base ∈ c.functions := List.mem_cons_self
  refine ⟨hc, hbase, (find?_eq_search.2.2.1 c hc base hbase).2, ?_, ?_, hs, ?_⟩
  · rw [find?_eq_search.2.1]
    decide
  · rw [find?_eq_search.2.1]
    decide
  · rw [(find?_eq_search.2.2.2 s hs "Both").2.1]
    decide

end SceneExpr
