import SceneExpr.Proofs.Catalog.Validity
import Std.Data.HashMap.Lemmas

namespace SceneExpr

deriving instance Hashable for ValueKind, Scope

/-- The last entry with the key, and its position. -/
def Key.last? (k : Key) (functions : List Signature) : Option (Signature × Nat) :=
  (functions.zipIdx.filter fun p => Key.ofSignature p.1 = k).getLast?

namespace Key

variable {k : Key} {functions : List Signature}

theorem last?_append_singleton (k : Key) (functions : List Signature) (s : Signature) :
    k.last? (functions ++ [s]) =
      if ofSignature s = k then some (s, functions.length) else k.last? functions := by
  rw [last?, List.zipIdx_append, List.zipIdx_singleton, List.filter_append, Nat.zero_add]
  by_cases hk : ofSignature s = k
  · rw [if_pos hk, List.filter_cons_of_pos (by simpa using hk), List.filter_nil,
      List.getLast?_concat]
  · rw [if_neg hk, List.filter_cons_of_neg (by simpa using hk), List.filter_nil,
      List.append_nil, last?]

theorem getElem?_of_last? {s : Signature} {i : Nat} (h : k.last? functions = some (s, i)) :
    functions[i]? = some s := by
  have hmem := List.mem_of_mem_filter (List.mem_of_getLast? h)
  simpa using List.mem_zipIdx_iff_getElem?.1 hmem

theorem map_last? (k : Key) (functions : List Signature) :
    (k.last? functions).map Prod.fst = (functions.filter fun s => ofSignature s = k).getLast? := by
  have hfst : functions = functions.zipIdx.map Prod.fst := by simp
  conv_rhs => rw [hfst, List.filter_map, List.getLast?_map]
  rfl

end Key

namespace Index

theorem enter_append (index : Index) (position : Nat) (front back : List Signature) :
    enter index position (front ++ back) =
      enter (enter index position front) (position + front.length) back := by
  induction front generalizing index position with
  | nil => rfl
  | cons s front ih =>
    rw [List.cons_append, enter, ih, enter, List.length_cons, Nat.add_right_comm, Nat.add_assoc]

/-- Entering one after the other makes the last one win. -/
theorem getElem?_ofFunctions (functions : List Signature) (k : Key) :
    (ofFunctions functions)[k]? = (k.last? functions).map Prod.snd := by
  induction functions using List.reverseRecOn with
  | nil => exact Std.TreeMap.getElem?_emptyc
  | append_singleton front s ih =>
    rw [ofFunctions, enter_append, enter, enter, Nat.zero_add, Std.TreeMap.getElem?_insert,
      Key.last?_append_singleton]
    by_cases hk : Key.ofSignature s = k
    · rw [if_pos (by rw [hk]; exact Std.ReflCmp.compare_self), if_pos hk, Option.map_some]
    · rw [if_neg fun heq => hk (Std.LawfulEqCmp.eq_of_compare heq), if_neg hk]
      exact ih

end Index

/-- Positions of functions by return kind and scope, then by owner, then by name. -/
abbrev NestedIndex := Std.HashMap (ValueKind × Scope) (Std.HashMap String (Std.HashMap String Nat))

namespace NestedIndex

def add (index : NestedIndex) (s : Signature) (position : Nat) : NestedIndex :=
  index.alter (s.returns, s.scope) fun owners =>
    some <| (owners.getD {}).alter s.owner fun names =>
      some ((names.getD {}).insert s.name position)

def enter (index : NestedIndex) (position : Nat) : List Signature → NestedIndex
  | [] => index
  | s :: ss => enter (index.add s position) (position + 1) ss

def ofFunctions (functions : List Signature) : NestedIndex := enter {} 0 functions

def position? (index : NestedIndex) (k : Key) : Option Nat :=
  index[(k.returns, k.scope)]?.bind fun owners => owners[k.owner]?.bind fun names => names[k.name]?

/-- A level that is not there yet is empty. -/
theorem getElem?_getD {β : Type} (level : Option (Std.HashMap String β)) (a : String) :
    (level.getD {})[a]? = level.bind fun entries => entries[a]? := by
  cases level with
  | none => exact Std.HashMap.getElem?_empty
  | some entries => rfl

/-- To add a function changes what is found under its key and under no other. -/
theorem position?_add (index : NestedIndex) (s : Signature) (position : Nat) (k : Key) :
    (index.add s position).position? k =
      if Key.ofSignature s = k then some position else index.position? k := by
  have hkey : Key.ofSignature s = k ↔
      (s.returns, s.scope) = (k.returns, k.scope) ∧ s.owner = k.owner ∧ s.name = k.name := by
    rw [Key.ofSignature, Key.mk.injEq, Prod.mk.injEq, and_assoc]
  rw [position?, add, Std.HashMap.getElem?_alter]
  by_cases hlevel : (s.returns, s.scope) = (k.returns, k.scope)
  · rw [if_pos (beq_iff_eq.2 hlevel), Option.bind_some, Std.HashMap.getElem?_alter, hlevel]
    by_cases howner : s.owner = k.owner
    · rw [if_pos (beq_iff_eq.2 howner), Option.bind_some, Std.HashMap.getElem?_insert, howner]
      by_cases hname : s.name = k.name
      · rw [if_pos (beq_iff_eq.2 hname), if_pos (hkey.2 ⟨hlevel, howner, hname⟩)]
      · rw [if_neg (by simpa using hname), if_neg fun h => hname (hkey.1 h).2.2]
        simp only [getElem?_getD, position?, Option.bind_assoc]
    · rw [if_neg (by simpa using howner), if_neg fun h => howner (hkey.1 h).2.1]
      simp only [getElem?_getD, position?, Option.bind_assoc]
  · rw [if_neg (by simpa using hlevel), if_neg fun h => hlevel (hkey.1 h).1, position?]

/-- Two indexes that agree still agree when the same functions are entered. -/
theorem position?_enter {nested : NestedIndex} {index : Index}
    (h : ∀ k, nested.position? k = index[k]?) (position : Nat) (functions : List Signature)
    (k : Key) :
    (nested.enter position functions).position? k = (Index.enter index position functions)[k]? := by
  induction functions generalizing nested index position with
  | nil => exact h k
  | cons s functions ih =>
    apply ih
    intro k
    rw [position?_add, Std.TreeMap.getElem?_insert, h]
    by_cases hk : Key.ofSignature s = k
    · rw [if_pos hk, if_pos (by rw [hk]; exact Std.ReflCmp.compare_self)]
    · rw [if_neg hk, if_neg fun heq => hk (Std.LawfulEqCmp.eq_of_compare heq)]

end NestedIndex

namespace Catalog

variable {c : Catalog} {s : Signature}

/-- The index leads to the last entry with the key. -/
theorem position?_eq_last (c : Catalog) (k : Key) :
    c.position? k = (k.last? c.functions).map Prod.snd := by
  rw [position?, c.index_eq, Index.getElem?_ofFunctions]

theorem nested_position?_eq (c : Catalog) (k : Key) :
    (NestedIndex.ofFunctions c.functions).position? k = c.position? k := by
  rw [position?, c.index_eq]
  apply NestedIndex.position?_enter
  intro k
  simp [NestedIndex.position?]

theorem find?_eq_last (c : Catalog) (k : Key) : c.find? k = (k.last? c.functions).map Prod.fst := by
  rw [find?, position?_eq_last]
  cases hlast : k.last? c.functions with
  | none => rfl
  | some p => exact Key.getElem?_of_last? hlast

/-- In a valid catalog no other entry has the key of an entry. -/
theorem filter_key_eq_singleton (h : c.validate = .ok ()) (hs : s ∈ c.functions) :
    (c.functions.filter fun t => Key.ofSignature t = Key.ofSignature s) = [s] := by
  have hkeys : c.functions.Pairwise fun t u => Key.ofSignature t ≠ Key.ofSignature u :=
    (validate_eq_ok_iff.1 h).keys_ne
  generalize c.functions = functions at hs hkeys
  induction functions with
  | nil => simp at hs
  | cons t functions ih =>
    obtain ⟨hnew, hkeys⟩ := List.pairwise_cons.1 hkeys
    rcases List.mem_cons.1 hs with rfl | hs
    · rw [List.filter_cons_of_pos (by simp), List.filter_eq_nil_iff.2]
      intro u hu heq
      exact hnew u hu (of_decide_eq_true heq).symm
    · rw [List.filter_cons_of_neg (by simpa using hnew s hs), ih hs hkeys]

end Catalog

end SceneExpr
