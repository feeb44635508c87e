import SceneExpr.Json.Printer
import SceneExpr.Proofs.Json.Escape
import SceneExpr.Proofs.Jsonc.Decorated

namespace SceneExpr.Json

/-- No value begins with a closing bracket. -/
theorem read?_firstItem (stack : List Frame) (v : Json) (ts : List Token) :
    read? stack .firstItem (tokens v ++ ts) = read? stack .value (tokens v ++ ts) := by
  cases v <;> rfl

mutual

/-- The tokens of a value are read as this value, whatever it is a part of and whatever follows
it. -/
theorem read?_tokens (stack : List Frame) (v : Json) (ts : List Token) :
    read? stack .value (tokens v ++ ts) = read? (settle stack v).1 (settle stack v).2 ts := by
  match v with
  | .null => rfl
  | .bool b => rfl
  | .number lexeme => rfl
  | .string body => rfl
  | .array [] => rfl
  | .array (v :: vs) =>
    have hitems := read?_itemTokens stack [] (v :: vs) ts (by simp)
    have hfirst : read? (.array [] :: stack) .firstItem
        (itemTokens (v :: vs) ++ .closeArray :: ts) =
        read? (.array [] :: stack) .value (itemTokens (v :: vs) ++ .closeArray :: ts) := by
      cases vs with
      | nil => exact read?_firstItem _ v _
      | cons w vs => simp only [itemTokens, List.append_assoc, read?_firstItem]
    rw [tokens, List.cons_append, List.append_assoc, List.singleton_append]
    exact hfirst.trans hitems
  | .object [] => rfl
  | .object (m :: ms) =>
    have hmembers := read?_memberTokens stack [] (m :: ms) ts (by simp)
    have hfirst : read? (.object [] :: stack) .firstKey
        (memberTokens (m :: ms) ++ .closeObject :: ts) =
        read? (.object [] :: stack) .key (memberTokens (m :: ms) ++ .closeObject :: ts) := by
      cases ms <;> rfl
    rw [tokens, List.cons_append, List.append_assoc, List.singleton_append]
    exact hfirst.trans hmembers

theorem read?_itemTokens (below : List Frame) (items vs : List Json) (ts : List Token)
    (hne : vs ≠ []) :
    read? (.array items :: below) .value (itemTokens vs ++ .closeArray :: ts) =
      read? (settle below (.array (items.reverse ++ vs))).1
        (settle below (.array (items.reverse ++ vs))).2 ts := by
  match vs with
  | [] => exact absurd rfl hne
  | [v] =>
    rw [itemTokens, read?_tokens]
    change read? (settle below (.array (v :: items).reverse)).1
      (settle below (.array (v :: items).reverse)).2 ts = _
    rw [List.reverse_cons]
  | v :: w :: vs =>
    have hrest := read?_itemTokens below (v :: items) (w :: vs) ts (by simp)
    rw [List.reverse_cons, List.append_assoc, List.singleton_append] at hrest
    rw [itemTokens, List.append_assoc, read?_tokens]
    exact hrest

theorem read?_memberTokens (below : List Frame) (members ms : List (List Char × Json))
    (ts : List Token) (hne : ms ≠ []) :
    read? (.object members :: below) .key (memberTokens ms ++ .closeObject :: ts) =
      read? (settle below (.object (members.reverse ++ ms))).1
        (settle below (.object (members.reverse ++ ms))).2 ts := by
  match ms with
  | [] => exact absurd rfl hne
  | [(k, v)] =>
    have hvalue := read?_tokens (.member members k :: below) v (.closeObject :: ts)
    rw [memberTokens]
    refine hvalue.trans ?_
    change read? (settle below (.object ((k, v) :: members).reverse)).1
      (settle below (.object ((k, v) :: members).reverse)).2 ts = _
    rw [List.reverse_cons]
  | (k, v) :: m :: ms =>
    have hrest := read?_memberTokens below ((k, v) :: members) (m :: ms) ts (by simp)
    have hvalue := read?_tokens (.member members k :: below) v
      (.comma :: (memberTokens (m :: ms) ++ .closeObject :: ts))
    rw [List.reverse_cons, List.append_assoc, List.singleton_append] at hrest
    rw [memberTokens, List.cons_append, List.cons_append, List.append_assoc]
    exact hvalue.trans hrest

end

theorem ofTokens?_tokens (v : Json) : ofTokens? (tokens v) = some v := by
  have hread := read?_tokens [] v []
  rwa [List.append_nil] at hread

/-- The strings and the numbers of the value are spelled as such. -/
def WellSpelled (v : Json) : Prop := ∀ t ∈ tokens v, t.WellSpelled

theorem wellSpelled_bool (b : Bool) : WellSpelled (.bool b) := by
  simp [WellSpelled, tokens, Token.WellSpelled]

theorem wellSpelled_ofText (s : String) : WellSpelled (ofText s) := by
  intro t ht
  obtain rfl := List.mem_singleton.1 ht
  exact isBody_escape s.toList

theorem mem_itemTokens {t : Token} {vs : List Json} (h : t ∈ itemTokens vs) :
    t = .comma ∨ ∃ v ∈ vs, t ∈ tokens v := by
  induction vs with
  | nil => cases h
  | cons v vs ih =>
    cases vs with
    | nil => exact .inr ⟨v, List.mem_singleton_self v, h⟩
    | cons w vs =>
      rcases List.mem_append.1 h with h | h
      · exact .inr ⟨v, List.mem_cons_self, h⟩
      rcases List.mem_cons.1 h with rfl | h
      · exact .inl rfl
      · exact (ih h).imp_right fun ⟨u, hu, ht⟩ => ⟨u, List.mem_cons_of_mem v hu, ht⟩

theorem mem_memberTokens {t : Token} {ms : List (List Char × Json)} (h : t ∈ memberTokens ms) :
    t = .comma ∨ t = .colon ∨ ∃ m ∈ ms, t = .string m.1 ∨ t ∈ tokens m.2 := by
  induction ms with
  | nil => cases h
  | cons m ms ih =>
    have hvalue (ht : t ∈ tokens m.2) : ∃ n ∈ m :: ms, t = .string n.1 ∨ t ∈ tokens n.2 :=
      ⟨m, List.mem_cons_self, .inr ht⟩
    cases ms with
    | nil =>
      simp only [memberTokens, List.mem_cons] at h
      rcases h with rfl | rfl | h
      · exact .inr (.inr ⟨m, List.mem_cons_self, .inl rfl⟩)
      · exact .inr (.inl rfl)
      · exact .inr (.inr (hvalue h))
    | cons n ms =>
      simp only [memberTokens, List.mem_cons, List.mem_append] at h
      rcases h with rfl | rfl | h | rfl | h
      · exact .inr (.inr ⟨m, List.mem_cons_self, .inl rfl⟩)
      · exact .inr (.inl rfl)
      · exact .inr (.inr (hvalue h))
      · exact .inl rfl
      · exact (ih h).imp_right (.imp_right fun ⟨n, hn, ht⟩ =>
          ⟨n, List.mem_cons_of_mem m hn, ht⟩)

theorem wellSpelled_array {vs : List Json} (h : ∀ v ∈ vs, v.WellSpelled) :
    WellSpelled (.array vs) := by
  intro t ht
  rw [tokens, List.mem_cons, List.mem_append, List.mem_singleton] at ht
  rcases ht with rfl | ht | rfl
  · trivial
  · rcases mem_itemTokens ht with rfl | ⟨v, hv, ht⟩
    · trivial
    · exact h v hv t ht
  · trivial

theorem wellSpelled_object {ms : List (List Char × Json)}
    (h : ∀ m ∈ ms, IsBody m.1 ∧ m.2.WellSpelled) :
    WellSpelled (.object ms) := by
  intro t ht
  rw [tokens, List.mem_cons, List.mem_append, List.mem_singleton] at ht
  rcases ht with rfl | ht | rfl
  · trivial
  · rcases mem_memberTokens ht with rfl | rfl | ⟨m, hm, rfl | ht⟩
    · trivial
    · trivial
    · exact (h m hm).1
    · exact (h m hm).2 t ht
  · trivial

theorem wellSpelled_record {ms : List (String × Json)} (h : ∀ m ∈ ms, m.2.WellSpelled) :
    WellSpelled (record ms) :=
  wellSpelled_object (List.forall_mem_map.2 fun m hm => ⟨isBody_escape m.1.toList, h m hm⟩)

theorem spells_compact (v : Json) : Spells (tokens v) v.compact := by
  unfold compact
  induction tokens v with
  | nil => exact .last (by simp)
  | cons t ts ih =>
    have hno : ∀ c ∈ ([] : List Char), isGap c = true := List.forall_mem_nil _
    exact .token hno ih

theorem orderly_tokens (v : Json) : Orderly (tokens v) := orderly_of_read? (ofTokens?_tokens v)

/-- A document is read back from its compact form, which has no comments to strip. -/
theorem parse?_strip_compact {v : Json} (h : v.WellSpelled) :
    parse? (Jsonc.strip v.compact) = some v := by
  rw [Jsonc.strip_of_spells (spells_compact v) h (orderly_tokens v), parse?,
    tokens?_of_spells (spells_compact v) h (orderly_tokens v)]
  exact ofTokens?_tokens v

end SceneExpr.Json
