import SceneExpr.Proofs.Call.Written

namespace SceneExpr

variable {σ α β : Type}

structure Request where
  kind : ValueKind
  source : String
  origin : Origin
deriving DecidableEq, Repr

def Request.handed (r : Request) : ValueKind × String := (r.kind, r.source)

def Argument.request? : Argument Origin → Option Request
  | .raw _ => none
  | .parsed kind source origin => some ⟨kind, source, origin⟩

namespace Parameter

variable {q : Parameter} {a : Option RawArgument}

def value (q : Parameter) (a : Option RawArgument) : String :=
  if q.optional ∧ a.all RawArgument.isBlank then q.neutralValue
  else String.ofList ((a.map (·.text)).getD [])

def origin (q : Parameter) (paren : Span) : Option RawArgument → Origin
  | some a => if q.optional ∧ a.isBlank then .standIn paren else .written a.start
  | none => .standIn paren

def request? (q : Parameter) (paren : Span) (a : Option RawArgument) : Option Request :=
  q.kind.valueKind?.map fun kind => ⟨kind, q.value a, q.origin paren a⟩

/-- What the parameter may be left with: nothing if authors do not see it, else its value. -/
inductive Receives (q : Parameter) (a : Option RawArgument) : Argument α → Prop where
  | generatorOnly : q.generatorOnly = true → Receives q a (.raw "")
  | given {b : Argument α} : q.generatorOnly = false → q.Gets (q.value a) b → Receives q a b

theorem Receives.same {b : Argument α} {c : Argument β} (h : q.Receives a b) (hsame : b.Same c) :
    q.Receives a c := by
  cases h with
  | generatorOnly hgenerator =>
    cases hsame
    exact .generatorOnly hgenerator
  | given hvisible hgets => exact .given hvisible (hgets.same hsame)

def bound (q : Parameter) (paren : Span) (a : Option RawArgument) : Argument Origin :=
  if q.generatorOnly then .raw "" else q.argument (q.value a).toList (q.origin paren a)

end Parameter

namespace Binding

end Binding

namespace Signature

variable {signature : Signature}

/-- What a consumer is asked for in a call of the function: visible parameters are paired with the
written arguments one by one. -/
def requests (signature : Signature) (list : ArgumentList) : List Request :=
  signature.authorParameters.zipIdx.filterMap fun p =>
    p.1.request? ⟨list.openAt, list.openAt + 1⟩ list.arguments[p.2]?

-- In `F( ,"a")` the blank goes to the optional parameter in front, and nothing is left for the last
-- one.
example :
    requests { name := "F", scope := .static, returns := .number, parameters := [
        { kind := .expression, optional := true },
        { kind := .other "scene", generatorOnly := true },
        { kind := .string }, { kind := .expression }] }
      ⟨1, 7, [⟨[' '], 2⟩, ⟨"\"a\"".toList, 4⟩], []⟩ =
    [⟨.number, "0", .standIn ⟨1, 2⟩⟩, ⟨.text, "\"a\"", .written 4⟩,
      ⟨.number, "", .standIn ⟨1, 2⟩⟩] := by
  decide

/-- The arguments are those of the first parameters. A parameter is paired with the written argument
at the place it has among the visible ones. -/
def Binds (signature : Signature) (written : List RawArgument)
    (arguments : List (Argument α)) : Prop :=
  ∀ j b, arguments[j]? = some b → ∃ q : Parameter, signature.parameters[j]? = some q ∧
    q.Receives written[(signature.parameters.take j).countP Parameter.isAuthorVisible]? b

namespace Binds

variable {written : List RawArgument} {as : List (Argument α)} {bs : List (Argument β)}

theorem same (h : signature.Binds written as) (hsame : List.Forall₂ Argument.Same as bs) :
    signature.Binds written bs := by
  intro j c hc
  obtain ⟨hj, rfl⟩ := List.getElem?_eq_some_iff.1 hc
  have hj' : j < as.length := hsame.length_eq ▸ hj
  obtain ⟨q, hq, hreceives⟩ := h j as[j] (List.getElem?_eq_getElem hj')
  exact ⟨q, hq, hreceives.same (hsame.get hj' hj)⟩

end Binds

end Signature

namespace Consumer

def bindArguments (k : Consumer σ α) (signature : Signature) (name : List Char)
    (list : ArgumentList) :
    EStateM ParseError σ (List (Argument α)) :=
  match Binding.bind signature name list with
  | .error e => throw e
  | .ok arguments => k.takeArguments arguments

/-- A call site with an argument list has its arguments bound before the consumer is told of the
call. -/
theorem takeItem_plan (k : Consumer σ α) (site : CallSite) (r : Resolution) {list : ArgumentList}
    (hlist : site.arguments = some list) (s : σ) :
    (match site.plan r with
      | .error e => EStateM.Result.error e s
      | .ok (c, _) => k.takeItem (.call c r.signature) s) =
      match k.bindArguments r.signature site.written list s with
      | .error e s => .error e s
      | .ok arguments s =>
        .ok () (k.call ⟨r.target, r.function, arguments, ⟨site.start, list.closeAt + 1⟩⟩
          r.signature s) := by
  simp only [CallSite.plan, hlist, bindArguments]
  cases Binding.bind r.signature site.written list with
  | error e => rfl
  | ok arguments => exact takeItem_call k _ r.signature s

end Consumer

/-- What may come of binding the written arguments of a call of the function, for a consumer in the
given state whose callbacks are written down. -/
inductive Signature.Outcome (signature : Signature) (name : List Char) (list : ArgumentList)
    (s : σ) :
    EStateM.Result ParseError (σ × List (Callback α)) (List (Argument α)) → Prop where
  | arity {e : ParseError} :
      list.arguments.length < signature.minArguments ∨
      signature.maxArguments < list.arguments.length →
      e.kind = .arityMismatch → e.span = ⟨list.openAt, list.openAt + 1⟩ →
      e.context = [("actual", toString list.arguments.length), ("function", String.ofList name),
        ("max", toString signature.maxArguments), ("min", toString signature.minArguments)] →
      Outcome signature name list s (.error e (s, []))
  | bound {arguments : List (Argument α)} {s' : σ} :
      signature.minArguments ≤ list.arguments.length →
      list.arguments.length ≤ signature.maxArguments →
      arguments.length = signature.parameters.length →
      signature.Binds list.arguments arguments →
      arguments.filterMap Argument.handed? = (signature.requests list).map Request.handed →
      Outcome signature name list s (.ok arguments (s', arguments.filterMap Argument.callback?))
  | failed {front back : List Request} {request : Request} {arguments : List (Argument α)}
      {e : ParseError} {s' : σ} :
      signature.minArguments ≤ list.arguments.length →
      list.arguments.length ≤ signature.maxArguments →
      signature.requests list = front ++ request :: back →
      signature.Binds list.arguments arguments →
      arguments.filterMap Argument.handed? = front.map Request.handed →
      Outcome signature name list s (.error (request.origin.locate e)
        (s', arguments.filterMap Argument.callback? ++
          [.argument request.kind request.source (.error e)]))

end SceneExpr
