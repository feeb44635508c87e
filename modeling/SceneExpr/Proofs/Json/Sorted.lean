import SceneExpr.Proofs.Json.Record

namespace SceneExpr.Json

theorem insertMember_perm (m : List Char × Json) (ms : List (List Char × Json)) :
    (insertMember m ms).Perm (m :: ms) := by
  induction ms with
  | nil => exact .refl _
  | cons n ms ih =>
    rw [insertMember]
    split
    · exact .refl _
    · exact (ih.cons n).trans (.swap m n ms)

theorem mem_insertMember {m n : List Char × Json} {ms : List (List Char × Json)} :
    n ∈ insertMember m ms ↔ n = m ∨ n ∈ ms := by
  rw [(insertMember_perm m ms).mem_iff, List.mem_cons]

theorem mem_itemTokens_of {t : Token} {v : Json} {vs : List Json} (hv : v ∈ vs)
    (ht : t ∈ tokens v) :
    t ∈ itemTokens vs := by
  induction vs with
  | nil => cases hv
  | cons w vs ih =>
    cases vs with
    | nil =>
      obtain rfl := List.mem_singleton.1 hv
      exact ht
    | cons u vs =>
      rw [itemTokens, List.mem_append, List.mem_cons]
      rcases List.mem_cons.1 hv with rfl | hv
      · exact .inl ht
      · exact .inr (.inr (ih hv))

theorem mem_memberTokens_of {t : Token} {m : List Char × Json} {ms : List (List Char × Json)}
    (hm : m ∈ ms) (ht : t = .string m.1 ∨ t ∈ tokens m.2) : t ∈ memberTokens ms := by
  induction ms with
  | nil => cases hm
  | cons n ms ih =>
    cases ms with
    | nil =>
      obtain rfl := List.mem_singleton.1 hm
      rw [memberTokens, List.mem_cons, List.mem_cons]
      exact ht.imp_right .inr
    | cons n' ms =>
      rw [memberTokens, List.mem_cons, List.mem_cons, List.mem_append, List.mem_cons]
      rcases List.mem_cons.1 hm with rfl | hm
      · exact ht.imp_right fun ht => .inr (.inl ht)
      · exact .inr (.inr (.inr (.inr (ih hm))))

theorem wellSpelled_array_iff {vs : List Json} :
    WellSpelled (.array vs) ↔ ∀ v ∈ vs, v.WellSpelled := by
  refine ⟨fun h v hv t ht => h t ?_, wellSpelled_array⟩
  rw [tokens, List.mem_cons, List.mem_append]
  exact .inr (.inl (mem_itemTokens_of hv ht))

theorem wellSpelled_object_iff {ms : List (List Char × Json)} :
    WellSpelled (.object ms) ↔ ∀ m ∈ ms, IsBody m.1 ∧ m.2.WellSpelled := by
  refine ⟨fun h m hm => ?_, wellSpelled_object⟩
  have hmember (t : Token) (ht : t = .string m.1 ∨ t ∈ tokens m.2) : t.WellSpelled := by
    refine h t ?_
    rw [tokens, List.mem_cons, List.mem_append]
    exact .inr (.inl (mem_memberTokens_of hm ht))
  exact ⟨hmember (.string m.1) (.inl rfl), fun t ht => hmember t (.inr ht)⟩

mutual

theorem wellSpelled_sortKeys {v : Json} (h : v.WellSpelled) : v.sortKeys.WellSpelled := by
  match v with
  | .array vs =>
    rw [sortKeys, wellSpelled_array_iff]
    exact wellSpelled_sortItems (wellSpelled_array_iff.1 h)
  | .object ms =>
    rw [sortKeys, wellSpelled_object_iff]
    exact wellSpelled_sortMembers (wellSpelled_object_iff.1 h)
  | .null | .bool _ | .number _ | .string _ => exact h

theorem wellSpelled_sortItems {vs : List Json} (h : ∀ v ∈ vs, v.WellSpelled) :
    ∀ v ∈ sortItems vs, v.WellSpelled := by
  match vs with
  | [] => exact List.forall_mem_nil _
  | v :: vs =>
    obtain ⟨hv, hvs⟩ := List.forall_mem_cons.1 h
    exact List.forall_mem_cons.2 ⟨wellSpelled_sortKeys hv, wellSpelled_sortItems hvs⟩

theorem wellSpelled_sortMembers {ms : List (List Char × Json)}
    (h : ∀ m ∈ ms, IsBody m.1 ∧ m.2.WellSpelled) :
    ∀ m ∈ sortMembers ms, IsBody m.1 ∧ m.2.WellSpelled := by
  match ms with
  | [] => exact List.forall_mem_nil _
  | (k, v) :: ms =>
    obtain ⟨⟨hk, hv⟩, hms⟩ := List.forall_mem_cons.1 h
    intro m hm
    rcases mem_insertMember.1 hm with rfl | hm
    · exact ⟨hk, wellSpelled_sortKeys hv⟩
    · exact wellSpelled_sortMembers hms m hm

end

end SceneExpr.Json
