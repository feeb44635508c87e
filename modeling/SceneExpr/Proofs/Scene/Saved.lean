import SceneExpr.Proofs.Catalog.Saved
import SceneExpr.Scene.Format

namespace SceneExpr

namespace Behavior

def slots (b : Behavior) : List (String × Option Json) :=
  [("name", some (.ofText b.name)), ("type", some (.ofText b.type))]

theorem wellSpelled_toJson (b : Behavior) : b.toJson.WellSpelled := by
  change (Json.record (Json.present b.slots)).WellSpelled
  refine Json.wellSpelled_present ?_
  simp [slots, Json.wellSpelled_ofText]

theorem ofJson?_toJson (b : Behavior) : ofJson? b.toJson = some b := by
  have honce : (b.slots.map (·.1)).Nodup := by
    change ["name", "type"].Nodup
    decide
  have hfields : b.toJson.fields? ["name", "type"] = some (Json.present b.slots) :=
    Json.fields?_record honce
  have hname : Json.required? (Json.present b.slots) "name" Json.text? = some b.name :=
    Json.required?_present honce rfl (Json.text?_ofText b.name)
  have htype : Json.required? (Json.present b.slots) "type" Json.text? = some b.type :=
    Json.required?_present honce rfl (Json.text?_ofText b.type)
  rw [ofJson?, hfields]
  simp only [Option.bind_eq_bind, Option.bind_some, hname, htype]
  rfl

end Behavior

namespace SceneObject

def slots (o : SceneObject) : List (String × Option Json) :=
  [("name", some (.ofText o.name)), ("type", some (.ofText o.type)),
    ("behaviors", some (.array (o.behaviors.map Behavior.toJson)))]

theorem wellSpelled_toJson (o : SceneObject) : o.toJson.WellSpelled := by
  change (Json.record (Json.present o.slots)).WellSpelled
  refine Json.wellSpelled_present ?_
  have hbehaviors : Json.WellSpelled (.array (o.behaviors.map Behavior.toJson)) :=
    Json.wellSpelled_array (List.forall_mem_map.2 fun b _ => b.wellSpelled_toJson)
  simp [slots, Json.wellSpelled_ofText, hbehaviors]

theorem ofJson?_toJson (o : SceneObject) : ofJson? o.toJson = some o := by
  have honce : (o.slots.map (·.1)).Nodup := by
    change ["name", "type", "behaviors"].Nodup
    decide
  have hfields : o.toJson.fields? ["name", "type", "behaviors"] = some (Json.present o.slots) :=
    Json.fields?_record honce
  have hname : Json.required? (Json.present o.slots) "name" Json.text? = some o.name :=
    Json.required?_present honce rfl (Json.text?_ofText o.name)
  have htype : Json.required? (Json.present o.slots) "type" Json.text? = some o.type :=
    Json.required?_present honce rfl (Json.text?_ofText o.type)
  have hbehaviors :
      Json.withDefault? (Json.present o.slots) "behaviors" [] (Json.list? Behavior.ofJson?) =
        some o.behaviors :=
    Json.withDefault?_present honce rfl (Json.list?_array fun b _ => b.ofJson?_toJson)
  rw [ofJson?, hfields]
  simp only [Option.bind_eq_bind, Option.bind_some, hname, htype, hbehaviors]
  rfl

end SceneObject

namespace Scene

def slots (s : Scene) : List (String × Option Json) :=
  [("objects", some (.array (s.objects.map SceneObject.toJson))),
    ("globalObjects", some (.array (s.globals.map SceneObject.toJson)))]

theorem wellSpelled_toJson (s : Scene) : s.toJson.WellSpelled := by
  change (Json.record (Json.present s.slots)).WellSpelled
  refine Json.wellSpelled_present ?_
  have hobjects (os : List SceneObject) : Json.WellSpelled (.array (os.map SceneObject.toJson)) :=
    Json.wellSpelled_array (List.forall_mem_map.2 fun o _ => o.wellSpelled_toJson)
  simp [slots, hobjects]

theorem ofJson?_toJson (s : Scene) : ofJson? s.toJson = some s := by
  have honce : (s.slots.map (·.1)).Nodup := by
    change ["objects", "globalObjects"].Nodup
    decide
  have hfields : s.toJson.fields? ["objects", "globalObjects"] = some (Json.present s.slots) :=
    Json.fields?_record honce
  have hread (os : List SceneObject) :
      Json.list? SceneObject.ofJson? (.array (os.map SceneObject.toJson)) = some os :=
    Json.list?_array fun o _ => o.ofJson?_toJson
  have hobjects :
      Json.withDefault? (Json.present s.slots) "objects" [] (Json.list? SceneObject.ofJson?) =
        some s.objects :=
    Json.withDefault?_present honce rfl (hread s.objects)
  have hglobals :
      Json.withDefault? (Json.present s.slots) "globalObjects" [] (Json.list? SceneObject.ofJson?) =
        some s.globals :=
    Json.withDefault?_present honce rfl (hread s.globals)
  rw [ofJson?, hfields]
  simp only [Option.bind_eq_bind, Option.bind_some, hobjects, hglobals]
  -- The index is that of the objects.
  obtain ⟨objects, globals, index, rfl⟩ := s
  rfl

theorem load_eq_ok_iff {text : List Char} {s : Scene} :
    load text = .ok s ↔ (Json.parse? (Jsonc.strip text)).bind ofJson? = some s ∧
    s.validate = .ok () := by
  rw [load]
  cases (Json.parse? (Jsonc.strip text)).bind ofJson? with
  | none => simp
  | some scene =>
    refine checked_eq_ok_iff.trans ?_
    rw [Option.some.injEq]
    exact and_congr_right fun hs => by rw [hs]

/-- A scene that is valid is read from the text it is saved as. -/
theorem load_compact_toJson {s : Scene} (h : s.validate = .ok ()) :
    load s.toJson.compact = .ok s := by
  refine load_eq_ok_iff.2 ⟨?_, h⟩
  rw [Json.parse?_strip_compact s.wellSpelled_toJson]
  exact s.ofJson?_toJson

end Scene

/-- Whatever text a catalog or a scene was read from, it is read again, with all its fields, from
the text it is saved as. -/
theorem load_saved (text : List Char) :
    (∀ c, Catalog.load text = .ok c → Catalog.load c.toJson.compact = .ok c) ∧
      ∀ s, Scene.load text = .ok s → Scene.load s.toJson.compact = .ok s :=
  ⟨fun _ hc => Catalog.load_compact_toJson hc,
    fun _ hs => Scene.load_compact_toJson (Scene.load_eq_ok_iff.1 hs).2⟩

/-- Fields listed in order, with a comment and a comma too many, a control character, an empty owner
type and an unknown kind. -/
theorem load_saved_unknown :
    let c := Catalog.indexed "1"
      [{ name := "X\x01", scope := .object, ownerType := some "", returns := .number,
         parameters := [{ kind := .other "mouse", optional := true }] }]
    let s := Scene.indexed [⟨"A", "Sprite", []⟩] []
    Catalog.load (String.toList
      "[\"1\", [ // all\n [\"X\\u0001\", \"object\", \"\", \"number\", [[\"mouse\", true]]],]]") =
        .ok c ∧ Catalog.load c.toJson.compact = .ok c ∧
      Scene.load "[[[\"A\", \"Sprite\"]]]".toList = .ok s ∧
      Scene.load s.toJson.compact = .ok s := by
  intro c s
  have hparse :
      Json.parse? (Jsonc.strip <| String.toList
        "[\"1\", [ // all\n [\"X\\u0001\", \"object\", \"\", \"number\", [[\"mouse\", true]]],]]") =
      some (.array [.string "1".toList,
        .array [.array [.string "X\\u0001".toList, .string "object".toList, .string [],
          .string "number".toList, .array [.array [.string "mouse".toList, .bool true]]]]]) := by
    cbv
  have hc :
      Catalog.load (String.toList
        "[\"1\", [ // all\n [\"X\\u0001\", \"object\", \"\", \"number\", [[\"mouse\", true]]],]]") =
      .ok c := by
    refine Catalog.load_eq_ok_iff.2 ⟨?_, rfl⟩
    rw [Catalog.read?, hparse]
    rfl
  have hs : Scene.load "[[[\"A\", \"Sprite\"]]]".toList = .ok s := by
    have hparse : Json.parse? (Jsonc.strip "[[[\"A\", \"Sprite\"]]]".toList) =
        some (.array [.array [.array [.string "A".toList, .string "Sprite".toList]]]) := by cbv
    refine Scene.load_eq_ok_iff.2 ⟨?_, rfl⟩
    rw [hparse]
    rfl
  exact ⟨hc, (load_saved _).1 c hc, hs, (load_saved _).2 s hs⟩

end SceneExpr
