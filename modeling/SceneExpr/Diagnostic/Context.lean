namespace SceneExpr

/-- The machine-readable details of a message, as keys with their values. -/
abbrev Context := List (String × String)

namespace Context

def Ascending (c : Context) : Prop := c.Pairwise fun p q => p.1 < q.1

/-- Gives `key` the value `value`, in place of an earlier value. -/
def insert (key value : String) : Context → Context
  | [] => [(key, value)]
  | (k, v) :: rest =>
    if key < k then (key, value) :: (k, v) :: rest
    else if key = k then (key, value) :: rest
    else (k, v) :: insert key value rest

def ofList (pairs : List (String × String)) : Context :=
  pairs.foldl (fun c p => c.insert p.1 p.2) []

def find? (c : Context) (key : String) : Option String := c.lookup key

theorem lookup_insert (c : Context) (key value other : String) :
    (c.insert key value).lookup other = if other = key then some value else c.lookup other := by
  induction c with
  | nil => grind [insert]
  | cons p rest ih => grind [insert]

theorem mem_insert {c : Context} {key value : String} {p : String × String}
    (h : p ∈ c.insert key value) : p = (key, value) ∨ p ∈ c := by
  induction c with
  | nil => exact .inl (List.mem_singleton.1 h)
  | cons q rest ih => grind [insert]

theorem Ascending.insert {c : Context} (h : c.Ascending) (key value : String) :
    (c.insert key value).Ascending := by
  induction c with
  | nil => exact List.pairwise_singleton _ _
  | cons p rest ih =>
    obtain ⟨k, v⟩ := p
    obtain ⟨hfirst, hrest⟩ := List.pairwise_cons.1 h
    rw [Context.insert]
    split
    next hlt =>
      refine List.pairwise_cons.2 ⟨List.forall_mem_cons.2 ⟨hlt, fun q hq => ?_⟩, h⟩
      exact String.lt_trans hlt (hfirst q hq)
    next hlt =>
      split
      next heq => exact List.pairwise_cons.2 ⟨fun q hq => heq ▸ hfirst q hq, hrest⟩
      next hne =>
        refine List.pairwise_cons.2 ⟨fun q hq => ?_, ih hrest⟩
        rcases mem_insert hq with rfl | hq
        · exact Std.lt_of_le_of_ne (String.not_lt.1 hlt) (Ne.symm hne)
        · exact hfirst q hq

theorem ascending_ofList (pairs : List (String × String)) : (ofList pairs).Ascending := by
  rw [ofList, List.foldl_eq_foldr_reverse]
  induction pairs.reverse with
  | nil => exact .nil
  | cons p pairs ih => exact ih.insert p.1 p.2

/-- Of several values for one key the last is kept. -/
theorem find?_ofList (pairs : List (String × String)) (key : String) :
    (ofList pairs).find? key = pairs.reverse.lookup key := by
  rw [ofList, List.foldl_eq_foldr_reverse, find?]
  induction pairs.reverse with
  | nil => rfl
  | cons p pairs ih =>
    rw [List.foldr_cons, lookup_insert, List.lookup_cons, ih]
    grind

end Context

end SceneExpr
