import SceneExpr.Json.Printer
import SceneExpr.Json.Record

namespace SceneExpr

/-- What becomes of a name in front of a parenthesis that is found nowhere, in number expressions:
it is passed on as constant text, always or only if the evaluator knows it as a math function. -/
inductive UnknownFunctions where
  | passThrough
  | builtinsOnly
deriving DecidableEq, Repr

namespace UnknownFunctions

def tag : UnknownFunctions → String
  | .passThrough => "passThrough"
  | .builtinsOnly => "builtinsOnly"

def ofTag? (tag : String) : Option UnknownFunctions :=
  match tag with
  | "passThrough" => some .passThrough
  | "builtinsOnly" => some .builtinsOnly
  | _ => none

@[simp] theorem ofTag?_tag (u : UnknownFunctions) : ofTag? u.tag = some u := by
  cases u <;> rfl

end UnknownFunctions

/-- `maxDepth` is the deepest nesting of arguments that a tree may have. -/
structure Options where
  unknownFunctions : UnknownFunctions := .passThrough
  maxDepth : Nat := 64
deriving DecidableEq, Repr

namespace Options

def toJson (o : Options) : Json :=
  .record [("unknownFunctions", .ofText o.unknownFunctions.tag), ("maxDepth", .ofNat o.maxDepth)]

def ofJson? (v : Json) : Option Options := do
  let fields ← v.fields? ["unknownFunctions", "maxDepth"]
  let plain : Options := {}
  return {
    unknownFunctions := ← Json.withDefault? fields "unknownFunctions" plain.unknownFunctions
      fun v => v.tag?.bind UnknownFunctions.ofTag?
    maxDepth := ← Json.withDefault? fields "maxDepth" plain.maxDepth Json.nat? }

end Options

end SceneExpr
