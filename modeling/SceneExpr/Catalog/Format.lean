import SceneExpr.Catalog.Validation
import SceneExpr.Json.Printer
import SceneExpr.Json.Reader
import SceneExpr.Json.Record
import SceneExpr.Jsonc

namespace SceneExpr

def ValueKind.ofJson? (v : Json) : Option ValueKind := v.tag?.bind ValueKind.ofTag?

def Scope.ofJson? (v : Json) : Option Scope := v.tag?.bind Scope.ofTag?

def ParameterKind.ofJson? (v : Json) : Option ParameterKind := v.text?.map ParameterKind.ofTag

namespace Parameter

def toJson (p : Parameter) : Json :=
  .record (
    [("kind", .ofText p.kind.tag), ("optional", .bool p.optional),
      ("generatorOnly", .bool p.generatorOnly)]
    ++ (if p.defaultValue = "" then [] else [("defaultValue", .ofText p.defaultValue)])
    ++ Json.optional "name" (p.name.map .ofText)
    ++ Json.optional "description" (p.description.map .ofText))

def fieldNames : List String :=
  ["kind", "optional", "generatorOnly", "defaultValue", "name", "description"]

def ofJson? (v : Json) : Option Parameter := do
  let fields ← v.fields? fieldNames
  return {
    kind := ← Json.required? fields "kind" ParameterKind.ofJson?
    optional := ← Json.withDefault? fields "optional" false Json.bool?
    generatorOnly := ← Json.withDefault? fields "generatorOnly" false Json.bool?
    defaultValue := ← Json.withDefault? fields "defaultValue" "" Json.text?
    name := ← Json.optional? fields "name" Json.text?
    description := ← Json.optional? fields "description" Json.text? }

end Parameter

namespace Signature

def toJson (s : Signature) : Json :=
  .record (
    [("name", .ofText s.name), ("scope", .ofText s.scope.tag)]
    ++ Json.optional "ownerType" (s.ownerType.map .ofText)
    ++ [("returns", .ofText s.returns.tag),
      ("parameters", .array (s.parameters.map Parameter.toJson))]
    ++ Json.optional "description" (s.description.map .ofText))

def fieldNames : List String :=
  ["name", "scope", "ownerType", "returns", "parameters", "description"]

def ofJson? (v : Json) : Option Signature := do
  let fields ← v.fields? fieldNames
  return {
    name := ← Json.required? fields "name" Json.text?
    scope := ← Json.required? fields "scope" Scope.ofJson?
    ownerType := ← Json.optional? fields "ownerType" Json.text?
    returns := ← Json.required? fields "returns" ValueKind.ofJson?
    parameters := ← Json.withDefault? fields "parameters" [] (Json.list? Parameter.ofJson?)
    description := ← Json.optional? fields "description" Json.text? }

end Signature

namespace Catalog

def toJson (c : Catalog) : Json :=
  .record [("formatVersion", .ofText c.formatVersion),
    ("functions", .array (c.functions.map Signature.toJson))]

def fieldNames : List String := ["formatVersion", "functions"]

def ofJson? (v : Json) : Option Catalog := do
  let fields ← v.fields? fieldNames
  let version ← Json.withDefault? fields "formatVersion" defaultVersion Json.text?
  let functions ← Json.withDefault? fields "functions" [] (Json.list? Signature.ofJson?)
  return indexed version functions

/-- The catalog of a document; its entries are not checked. -/
def read? (text : List Char) : Option Catalog := (Json.parse? (Jsonc.strip text)).bind ofJson?

def load (text : List Char) : Except CatalogError Catalog :=
  match read? text with
  | none => .error .invalidJson
  | some catalog => do
    catalog.validate
    return catalog

end Catalog

end SceneExpr
