import SceneExpr.Diagnostic.Code
import SceneExpr.Json.Printer
import SceneExpr.Json.Record
import SceneExpr.Span

namespace SceneExpr

def Span.toJson (s : Span) : Json :=
  .record [("start", .ofNat s.start), ("end", .ofNat s.stop)]

def Span.ofJson? (v : Json) : Option Span := do
  let fields ← v.fields? ["start", "end"]
  return ⟨← Json.required? fields "start" Json.nat?,
    ← Json.required? fields "end" Json.nat?⟩

def Context.toJson (c : Context) : Json :=
  .record (c.map fun p => (p.1, .ofText p.2))

def Context.ofJson? (v : Json) : Option Context := do
  let pairs ← (← v.members?).mapM fun m => m.2.text?.map fun t => (m.1, t)
  return Context.ofList pairs

theorem Context.ascending_of_ofJson? {v : Json} {c : Context} (h : ofJson? v = some c) :
    c.Ascending := by
  obtain ⟨members, -, h⟩ := Option.bind_eq_some_iff.1 h
  obtain ⟨pairs, -, h⟩ := Option.bind_eq_some_iff.1 h
  exact Option.some.inj h ▸ ascending_ofList pairs

structure Diagnostic where
  id : String
  severity : Severity
  message : String
  span : Option Span
  context : Option Context
deriving DecidableEq, Repr

namespace Diagnostic

def withContext (d : Diagnostic) (ctx : Context) : Diagnostic :=
  if ctx.isEmpty then d else { d with context := some ctx }

def explanation? (d : Diagnostic) : Option String := (Code.find? d.id).map (·.explanation)

def display (d : Diagnostic) : String :=
  s!"{d.severity.tag}[{d.id}]: {d.message}" ++
    match d.span with
    | none => ""
    | some s => s!" (at {s.start})"

def toJson (d : Diagnostic) : Json :=
  .record
    ([("id", .ofText d.id), ("severity", .ofText d.severity.tag), ("message", .ofText d.message)]
    ++ Json.optional "span" (d.span.map Span.toJson)
    ++ Json.optional "context" (d.context.map Context.toJson))

def fieldNames : List String := ["id", "severity", "message", "span", "context"]

/-- An array has to list all five fields; an object may leave out the last two. -/
def ofJson? (v : Json) : Option Diagnostic := do
  if (v.array?.any fun items => items.length < fieldNames.length) then none
  let fields ← v.fields? fieldNames
  return {
    id := ← Json.required? fields "id" Json.text?
    severity := ← Json.required? fields "severity" fun s => s.tag?.bind Severity.ofTag?
    message := ← Json.required? fields "message" Json.text?
    span := ← Json.optional? fields "span" Span.ofJson?
    context := ← Json.optional? fields "context" Context.ofJson? }

end Diagnostic

end SceneExpr
