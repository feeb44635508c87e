import SceneExpr.Json.Printer
import SceneExpr.Json.Reader
import SceneExpr.Json.Record
import SceneExpr.Jsonc
import SceneExpr.Scene.Basic

namespace SceneExpr

inductive SceneList where
  | scene
  | global
deriving DecidableEq, Repr

def SceneList.tag : SceneList → String
  | .scene => "scene"
  | .global => "global"

inductive SceneError where
  | invalidJson
  | duplicateObject (list : SceneList) (name : String)
deriving DecidableEq, Repr

def SceneError.message : SceneError → String
  | .invalidJson => "invalid scene JSON"
  | .duplicateObject list name => s!"duplicate {list.tag} object '{name}'"

namespace Behavior

def toJson (b : Behavior) : Json := .record [("name", .ofText b.name), ("type", .ofText b.type)]

def ofJson? (v : Json) : Option Behavior := do
  let fields ← v.fields? ["name", "type"]
  return {
    name := ← Json.required? fields "name" Json.text?
    type := ← Json.required? fields "type" Json.text? }

end Behavior

namespace SceneObject

def toJson (o : SceneObject) : Json :=
  .record [("name", .ofText o.name), ("type", .ofText o.type),
    ("behaviors", .array (o.behaviors.map Behavior.toJson))]

def ofJson? (v : Json) : Option SceneObject := do
  let fields ← v.fields? ["name", "type", "behaviors"]
  return {
    name := ← Json.required? fields "name" Json.text?
    type := ← Json.required? fields "type" Json.text?
    behaviors := ← Json.withDefault? fields "behaviors" [] (Json.list? Behavior.ofJson?) }

end SceneObject

namespace Scene

/-- The first name that an earlier object has; `seen` holds the names of those before. -/
def repeatedName? (seen : List String) : List SceneObject → Option String
  | [] => none
  | o :: os => if o.name ∈ seen then some o.name else repeatedName? (o.name :: seen) os

def validate (s : Scene) : Except SceneError Unit :=
  match repeatedName? [] s.objects, repeatedName? [] s.globals with
  | some name, _ => .error (.duplicateObject .scene name)
  | none, some name => .error (.duplicateObject .global name)
  | none, none => .ok ()

def new (objects globals : List SceneObject) : Except SceneError Scene := do
  let scene := indexed objects globals
  scene.validate
  return scene

def toJson (s : Scene) : Json :=
  .record [("objects", .array (s.objects.map SceneObject.toJson)),
    ("globalObjects", .array (s.globals.map SceneObject.toJson))]

def ofJson? (v : Json) : Option Scene := do
  let fields ← v.fields? ["objects", "globalObjects"]
  let objects ← Json.withDefault? fields "objects" [] (Json.list? SceneObject.ofJson?)
  let globals ← Json.withDefault? fields "globalObjects" [] (Json.list? SceneObject.ofJson?)
  return indexed objects globals

def load (text : List Char) : Except SceneError Scene :=
  match (Json.parse? (Jsonc.strip text)).bind ofJson? with
  | none => .error .invalidJson
  | some scene => do
    scene.validate
    return scene

end Scene

end SceneExpr
