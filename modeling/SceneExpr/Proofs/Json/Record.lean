import SceneExpr.Json.Record
import SceneExpr.Proofs.Json.Printer

namespace SceneExpr.Json

@[simp] theorem text?_ofText (s : String) : text? (ofText s) = some s := by
  rw [ofText, text?, unescape?_escape, Option.map_some, String.ofList_toList]

@[simp] theorem tag?_ofText (s : String) : tag? (ofText s) = some s := text?_ofText s

@[simp] theorem nullable?_ofText (s : String) : nullable? text? (ofText s) = some (some s) := by
  change (text? (ofText s)).map some = _
  rw [text?_ofText, Option.map_some]

/-- What is read back from each of some items is read back from all of them. -/
theorem mapM_map_eq_some {α β : Type} {write : α → β} {read : β → Option α} {as : List α}
    (h : ∀ a ∈ as, read (write a) = some a) : (as.map write).mapM read = some as := by
  induction as with
  | nil => rfl
  | cons a as ih =>
    obtain ⟨ha, has⟩ := List.forall_mem_cons.1 h
    rw [List.map_cons, List.mapM_cons, ha, ih has]
    rfl

theorem list?_array {α : Type} {write : α → Json} {read : Json → Option α} {as : List α}
    (h : ∀ a ∈ as, read (write a) = some a) : list? read (.array (as.map write)) = some as :=
  mapM_map_eq_some h

theorem exists_of_mem_mapM {α β : Type} {read : β → Option α} {vs : List β} {as : List α}
    (h : vs.mapM read = some as) : ∀ a ∈ as, ∃ v, read v = some a := by
  induction vs generalizing as with
  | nil =>
    obtain rfl := Option.some.inj h
    exact List.forall_mem_nil _
  | cons v vs ih =>
    rw [List.mapM_cons] at h
    obtain ⟨a, ha, h⟩ := Option.bind_eq_some_iff.1 h
    obtain ⟨as, has, h⟩ := Option.bind_eq_some_iff.1 h
    obtain rfl := Option.some.inj h
    exact List.forall_mem_cons.2 ⟨⟨v, ha⟩, ih has⟩

/-- Every item of a list that was read, or else is the default, was read from a value of its own. -/
theorem exists_of_mem_list? {α : Type} {read : Json → Option α} {fields : List (String × Json)}
    {name : String} {as : List α} (h : withDefault? fields name [] (list? read) = some as) :
    ∀ a ∈ as, ∃ v, read v = some a := by
  unfold withDefault? at h
  split at h
  · obtain rfl := Option.some.inj h
    exact List.forall_mem_nil _
  next v _ =>
    cases v with
    | array vs => exact exists_of_mem_mapM h
    | _ => cases h

def present (slots : List (String × Option Json)) : List (String × Json) :=
  slots.flatMap fun s => optional s.1 s.2

theorem present_cons (s : String × Option Json) (slots : List (String × Option Json)) :
    present (s :: slots) = optional s.1 s.2 ++ present slots := rfl

theorem keys_present_sublist (slots : List (String × Option Json)) :
    ((present slots).map (·.1)).Sublist (slots.map (·.1)) := by
  induction slots with
  | nil => exact .slnil
  | cons s slots ih =>
    obtain ⟨key, value⟩ := s
    cases value with
    | none => exact ih.cons key
    | some v => exact ih.cons_cons key

theorem lookup_optional (key name : String) (value : Option Json) :
    (optional key value).lookup name = if name = key then value else none := by
  cases value with
  | none => simp [optional]
  | some v =>
    by_cases h : name = key
    · simp [optional, h]
    · simp [optional, List.lookup_cons, beq_false_of_ne h, h]

theorem lookup_eq_none_of_notMem {α : Type} {entries : List (String × α)} {name : String}
    (h : name ∉ entries.map (·.1)) : entries.lookup name = none := by
  rw [List.lookup_eq_none_iff]
  exact fun e he => bne_iff_ne.2 fun heq => h (heq ▸ List.mem_map_of_mem he)

theorem lookup_present {slots : List (String × Option Json)} (honce : (slots.map (·.1)).Nodup)
    (name : String) : (present slots).lookup name = (slots.lookup name).join := by
  induction slots with
  | nil => rfl
  | cons s slots ih =>
    obtain ⟨key, value⟩ := s
    obtain ⟨hkey, honce⟩ := List.nodup_cons.1 honce
    rw [present_cons, List.lookup_append, lookup_optional, ih honce]
    by_cases hname : name = key
    · subst hname
      rw [if_pos rfl, lookup_eq_none_of_notMem hkey, List.lookup_cons_self]
      exact Option.or_none
    · rw [if_neg hname, Option.none_or, List.lookup_cons, beq_false_of_ne hname]

/-- The fields of a record are those of its members that are present. -/
theorem fields?_record {slots : List (String × Option Json)} (honce : (slots.map (·.1)).Nodup) :
    fields? (slots.map (·.1)) (record (present slots)) = some (present slots) := by
  have hsub := keys_present_sublist slots
  have hmembers :
      members? (.object ((present slots).map fun m => member m.1 m.2)) = some (present slots) := by
    refine mapM_map_eq_some fun m _ => ?_
    rw [member, unescape?_escape, Option.map_some, String.ofList_toList]
  have hknown : ((present slots).filter fun m => (slots.map (·.1)).contains m.1) = present slots :=
    List.filter_eq_self.2 fun m hm =>
      List.contains_iff_mem.2 (hsub.subset (List.mem_map_of_mem hm))
  rw [record, fields?, hmembers]
  simp only [Option.bind_eq_bind, Option.bind_some, hknown, if_pos (honce.sublist hsub)]

theorem mem_optional {m : String × Json} {key : String} {value : Option Json}
    (h : m ∈ optional key value) :
    value = some m.2 := by
  cases value with
  | none => cases h
  | some v => rw [List.mem_singleton.1 h]

theorem wellSpelled_present {slots : List (String × Option Json)}
    (h : ∀ s ∈ slots, ∀ v ∈ s.2, WellSpelled v) : WellSpelled (record (present slots)) := by
  refine wellSpelled_record fun m hm => ?_
  obtain ⟨s, hs, hm⟩ := List.mem_flatMap.1 hm
  exact h s hs m.2 (mem_optional hm)

section Present

variable {α : Type} {slots : List (String × Option Json)}
  (honce : (slots.map (·.1)).Nodup) {name : String}
  {read : Json → Option α}

include honce

theorem required?_present {v : Json} {a : α} (h : slots.lookup name = some (some v))
    (hread : read v = some a) : required? (present slots) name read = some a := by
  rw [required?, lookup_present honce, h]
  exact hread

theorem withDefault?_present {default a : α} {v : Json} (h : slots.lookup name = some (some v))
    (hread : read v = some a) : withDefault? (present slots) name default read = some a := by
  rw [withDefault?, lookup_present honce, h]
  exact hread

/-- A text that is not written where it is the default. -/
theorem withDefault?_text {value default : String}
    (h : slots.lookup name = some (if value = default then none else some (ofText value))) :
    withDefault? (present slots) name default text? = some value := by
  rw [withDefault?, lookup_present honce, h]
  split_ifs with hdefault
  · rw [hdefault]
    rfl
  · exact text?_ofText value

theorem optional?_text {value : Option String} (h : slots.lookup name = some (value.map ofText)) :
    optional? (present slots) name text? = some value := by
  rw [optional?, withDefault?, lookup_present honce, h]
  cases value with
  | none => rfl
  | some s => exact nullable?_ofText s

end Present

end SceneExpr.Json
