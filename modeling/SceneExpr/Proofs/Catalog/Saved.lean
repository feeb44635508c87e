import SceneExpr.Catalog.Format
import SceneExpr.Proofs.Json.Printer
import SceneExpr.Proofs.Json.Record

namespace SceneExpr

theorem checked_eq_ok_iff {ε α : Type} {check : Except ε Unit} {a b : α} :
    (check >>= fun _ => pure a) = .ok b ↔ a = b ∧ check = .ok () := by
  cases check with
  | error e => exact ⟨nofun, fun h => nomatch h.2⟩
  | ok _ => exact ⟨fun h => ⟨Except.ok.inj h, rfl⟩, fun h => congrArg Except.ok h.1⟩

/-- A tag that names one of the kinds is not kept as another one. -/
theorem ParameterKind.ofTag_tag_of_ofJson? {v : Json} {k : ParameterKind} (h : ofJson? v = some k) :
    ofTag k.tag = k := by
  obtain ⟨tag, -, rfl⟩ := Option.map_eq_some_iff.1 h
  rw [tag_ofTag]

namespace Parameter

def slots (p : Parameter) : List (String × Option Json) :=
  [("kind", some (.ofText p.kind.tag)), ("optional", some (.bool p.optional)),
    ("generatorOnly", some (.bool p.generatorOnly)),
    ("defaultValue", if p.defaultValue = "" then none else some (.ofText p.defaultValue)),
    ("name", p.name.map .ofText), ("description", p.description.map .ofText)]

theorem toJson_eq (p : Parameter) : p.toJson = .record (Json.present p.slots) := by
  unfold toJson slots
  split_ifs <;> simp [Json.present, Json.optional]

theorem wellSpelled_toJson (p : Parameter) : p.toJson.WellSpelled := by
  rw [toJson_eq]
  refine Json.wellSpelled_present ?_
  simp [slots, Json.wellSpelled_ofText, Json.wellSpelled_bool]

theorem ofJson?_toJson {p : Parameter} (h : ParameterKind.ofTag p.kind.tag = p.kind) :
    ofJson? p.toJson = some p := by
  have honce : (p.slots.map (·.1)).Nodup := by
    change fieldNames.Nodup
    decide
  have hfields : p.toJson.fields? fieldNames = some (Json.present p.slots) :=
    p.toJson_eq ▸ Json.fields?_record honce
  have hread : ParameterKind.ofJson? (.ofText p.kind.tag) = some p.kind := by
    rw [ParameterKind.ofJson?, Json.text?_ofText, Option.map_some, h]
  have hkind : Json.required? (Json.present p.slots) "kind" ParameterKind.ofJson? = some p.kind :=
    Json.required?_present honce rfl hread
  have hoptional : Json.withDefault? (Json.present p.slots) "optional" false Json.bool? =
      some p.optional :=
    Json.withDefault?_present honce rfl rfl
  have hgenerator :
      Json.withDefault? (Json.present p.slots) "generatorOnly" false Json.bool? =
        some p.generatorOnly :=
    Json.withDefault?_present honce rfl rfl
  have hdefault :
      Json.withDefault? (Json.present p.slots) "defaultValue" "" Json.text? = some p.defaultValue :=
    Json.withDefault?_text honce rfl
  have hname : Json.optional? (Json.present p.slots) "name" Json.text? = some p.name :=
    Json.optional?_text honce rfl
  have hdescription :
      Json.optional? (Json.present p.slots) "description" Json.text? = some p.description :=
    Json.optional?_text honce rfl
  rw [ofJson?, hfields]
  simp only [Option.bind_eq_bind, Option.bind_some, hkind, hoptional, hgenerator, hdefault, hname,
    hdescription]
  rfl

/-- The kind of a parameter that was read is the one its tag names. -/
theorem ofTag_tag_of_ofJson? {v : Json} {p : Parameter} (h : ofJson? v = some p) :
    ParameterKind.ofTag p.kind.tag = p.kind := by
  obtain ⟨fields, -, h⟩ := Option.bind_eq_some_iff.1 h
  obtain ⟨kind, hkind, h⟩ := Option.bind_eq_some_iff.1 h
  simp only [Option.bind_eq_bind, Option.bind_eq_some_iff] at h
  obtain ⟨_, -, _, -, _, -, _, -, _, -, h⟩ := h
  obtain rfl := Option.some.inj h
  obtain ⟨w, -, hw⟩ := Option.bind_eq_some_iff.1 hkind
  exact ParameterKind.ofTag_tag_of_ofJson? hw

end Parameter

namespace Signature

def slots (s : Signature) : List (String × Option Json) :=
  [("name", some (.ofText s.name)), ("scope", some (.ofText s.scope.tag)),
    ("ownerType", s.ownerType.map .ofText), ("returns", some (.ofText s.returns.tag)),
    ("parameters", some (.array (s.parameters.map Parameter.toJson))),
    ("description", s.description.map .ofText)]

theorem toJson_eq (s : Signature) : s.toJson = .record (Json.present s.slots) := by
  simp [toJson, slots, Json.present, Json.optional]

theorem wellSpelled_toJson (s : Signature) : s.toJson.WellSpelled := by
  rw [toJson_eq]
  refine Json.wellSpelled_present ?_
  have hparameters : Json.WellSpelled (.array (s.parameters.map Parameter.toJson)) :=
    Json.wellSpelled_array (List.forall_mem_map.2 fun p _ => p.wellSpelled_toJson)
  simp [slots, Json.wellSpelled_ofText, hparameters]

theorem ofJson?_toJson {s : Signature}
    (h : ∀ p ∈ s.parameters, ParameterKind.ofTag p.kind.tag = p.kind) :
    ofJson? s.toJson = some s := by
  have honce : (s.slots.map (·.1)).Nodup := by
    change fieldNames.Nodup
    decide
  have hfields : s.toJson.fields? fieldNames = some (Json.present s.slots) :=
    s.toJson_eq ▸ Json.fields?_record honce
  have hname : Json.required? (Json.present s.slots) "name" Json.text? = some s.name :=
    Json.required?_present honce rfl (Json.text?_ofText s.name)
  have hscope : Json.required? (Json.present s.slots) "scope" Scope.ofJson? = some s.scope :=
    Json.required?_present honce rfl (by simp [Scope.ofJson?])
  have howner : Json.optional? (Json.present s.slots) "ownerType" Json.text? = some s.ownerType :=
    Json.optional?_text honce rfl
  have hreturns : Json.required? (Json.present s.slots) "returns" ValueKind.ofJson? =
      some s.returns :=
    Json.required?_present honce rfl (by simp [ValueKind.ofJson?])
  have hparameters :
      Json.withDefault? (Json.present s.slots) "parameters" [] (Json.list? Parameter.ofJson?) =
        some s.parameters :=
    Json.withDefault?_present honce rfl (Json.list?_array fun p hp =>
      Parameter.ofJson?_toJson (h p hp))
  have hdescription :
      Json.optional? (Json.present s.slots) "description" Json.text? = some s.description :=
    Json.optional?_text honce rfl
  rw [ofJson?, hfields]
  simp only [Option.bind_eq_bind, Option.bind_some, hname, hscope, howner, hreturns, hparameters,
    hdescription]
  rfl

theorem ofTag_tag_of_ofJson? {v : Json} {s : Signature} (h : ofJson? v = some s) :
    ∀ p ∈ s.parameters, ParameterKind.ofTag p.kind.tag = p.kind := by
  obtain ⟨fields, -, h⟩ := Option.bind_eq_some_iff.1 h
  simp only [Option.bind_eq_bind, Option.bind_eq_some_iff] at h
  obtain ⟨_, -, _, -, _, -, _, -, parameters, hparameters, _, -, h⟩ := h
  obtain rfl := Option.some.inj h
  intro p hp
  obtain ⟨w, hw⟩ := Json.exists_of_mem_list? hparameters p hp
  exact Parameter.ofTag_tag_of_ofJson? hw

end Signature

namespace Catalog

def slots (c : Catalog) : List (String × Option Json) :=
  [("formatVersion", some (.ofText c.formatVersion)),
    ("functions", some (.array (c.functions.map Signature.toJson)))]

theorem wellSpelled_toJson (c : Catalog) : c.toJson.WellSpelled := by
  change (Json.record (Json.present c.slots)).WellSpelled
  refine Json.wellSpelled_present ?_
  have hfunctions : Json.WellSpelled (.array (c.functions.map Signature.toJson)) :=
    Json.wellSpelled_array (List.forall_mem_map.2 fun s _ => s.wellSpelled_toJson)
  simp [slots, Json.wellSpelled_ofText, hfunctions]

theorem ofJson?_toJson {c : Catalog}
    (h : ∀ s ∈ c.functions, ∀ p ∈ s.parameters, ParameterKind.ofTag p.kind.tag = p.kind) :
    ofJson? c.toJson = some c := by
  have honce : (c.slots.map (·.1)).Nodup := by
    change fieldNames.Nodup
    decide
  have hfields : c.toJson.fields? fieldNames = some (Json.present c.slots) :=
    Json.fields?_record honce
  have hversion :
      Json.withDefault? (Json.present c.slots) "formatVersion" defaultVersion Json.text? =
        some c.formatVersion :=
    Json.withDefault?_present honce rfl (Json.text?_ofText c.formatVersion)
  have hfunctions :
      Json.withDefault? (Json.present c.slots) "functions" [] (Json.list? Signature.ofJson?) =
        some c.functions :=
    Json.withDefault?_present honce rfl (Json.list?_array fun s hs =>
      Signature.ofJson?_toJson (h s hs))
  rw [ofJson?, hfields]
  simp only [Option.bind_eq_bind, Option.bind_some, hversion, hfunctions]
  -- The index is that of the functions.
  obtain ⟨version, functions, index, rfl⟩ := c
  rfl

theorem ofTag_tag_of_ofJson? {v : Json} {c : Catalog} (h : ofJson? v = some c) :
    ∀ s ∈ c.functions, ∀ p ∈ s.parameters, ParameterKind.ofTag p.kind.tag = p.kind := by
  obtain ⟨fields, -, h⟩ := Option.bind_eq_some_iff.1 h
  obtain ⟨version, -, h⟩ := Option.bind_eq_some_iff.1 h
  obtain ⟨functions, hfunctions, h⟩ := Option.bind_eq_some_iff.1 h
  obtain rfl := Option.some.inj h
  intro s hs
  obtain ⟨w, hw⟩ := Json.exists_of_mem_list? hfunctions s hs
  exact Signature.ofTag_tag_of_ofJson? hw

theorem load_eq_ok_iff {text : List Char} {c : Catalog} :
    load text = .ok c ↔ read? text = some c ∧ c.validate = .ok () := by
  rw [load]
  cases read? text with
  | none => simp
  | some catalog =>
    refine checked_eq_ok_iff.trans ?_
    rw [Option.some.injEq]
    exact and_congr_right fun hc => by rw [hc]

/-- A catalog that was read from some text is read from the text it is saved as. -/
theorem load_compact_toJson {text : List Char} {c : Catalog} (h : load text = .ok c) :
    load c.toJson.compact = .ok c := by
  obtain ⟨hread, hvalid⟩ := load_eq_ok_iff.1 h
  obtain ⟨v, -, hv⟩ := Option.bind_eq_some_iff.1 hread
  refine load_eq_ok_iff.2 ⟨?_, hvalid⟩
  rw [read?, Json.parse?_strip_compact c.wellSpelled_toJson]
  exact ofJson?_toJson (ofTag_tag_of_ofJson? hv)

end Catalog

end SceneExpr
