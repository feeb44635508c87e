import SceneExpr.Proofs.Octets.Sites
import SceneExpr.Proofs.Tree.Assembly

namespace SceneExpr

def Scan.builtAfter (nested : ValueKind → String → Except ParseError Tree)
    (fragments : List Fragment) (s : Scan) : Except ParseError (List Fragment) :=
  (s.built nested).map (fragments ++ ·)

def withConstant (fragments : List Fragment) (text : List Char) : List Fragment :=
  if text = [] then fragments else fragments ++ [.constant (String.ofList text)]

namespace Scan

variable {nested : ValueKind → String → Except ParseError Tree} {fragments : List Fragment}
  {s : Scan}

theorem builtAfter_finished : finished.builtAfter nested fragments = .ok fragments :=
  congrArg Except.ok (List.append_nil fragments)

theorem builtAfter_stopped (e : ParseError) : (stopped e).builtAfter nested fragments = .error e :=
  rfl

theorem builtAfter_cons (i : Item) : (cons i s).builtAfter nested fragments =
    i.built nested >>= fun f => s.builtAfter nested (fragments ++ [f]) := by
  simp only [builtAfter, built, cons, List.mapM_cons]
  cases i.built nested with
  | error e => rfl
  | ok f =>
    cases s.items.mapM (Item.built nested) with
    | error e => rfl
    | ok fs =>
      cases s.error with
      | some e => rfl
      | none => exact congrArg Except.ok (List.append_assoc fragments [f] fs).symm

theorem builtAfter_constant (text : List Char) : (constant text s).builtAfter nested fragments =
    s.builtAfter nested (withConstant fragments text) := by
  unfold constant withConstant
  split
  · rfl
  · exact builtAfter_cons _

end Scan

namespace Octets

section Machine

variable (nested : ValueKind → String → Outcome Tree) (text : List Char)
  (fragments : List Fragment)

/-- Takes in the constant text between two offsets, if there is any. -/
def flush (start stop : Nat) : Outcome (List Fragment) :=
  if start < stop then do
    let cs ← part text start stop
    return fragments ++ [.constant (String.ofList cs)]
  else return fragments

def unknown {α : Type} (s : Site) (why : Unresolved) : Outcome α := do
  let name ← span s.start s.memberSpan.stop
  let written ← part text s.start s.memberSpan.stop
  raise (match why, s.owner with
    | .notAttached object behavior, _ => .notAttached (String.ofList written) object behavior
    | .notFound, some owner =>
      .unknownMember (String.ofList s.member) (String.ofList (decodeOwner owner))
    | .notFound, none => .unknownStatic (String.ofList written)) name

def buildArguments : List (Argument Origin) → Outcome (List (Argument Tree))
  | [] => return []
  | .raw text :: as => do
    let bs ← buildArguments as
    return .raw text :: bs
  | .parsed kind source origin :: as =>
    match nested kind source with
    | .panic p => .panic p
    | .error e => .error (origin.locate e)
    | .ok t => do
      let bs ← buildArguments as
      return .parsed kind source t :: bs

def bindArguments (signature : Signature) (name : List Char) (list : ListSite) :
    Outcome (List (Argument Tree)) := do
  let paren ← span list.openAt (list.openAt + 1)
  let actual := list.arguments.length
  if actual < signature.minArguments ∨ signature.maxArguments < actual then
    raise (.arity (String.ofList name) signature.minArguments signature.maxArguments actual) paren
  else buildArguments nested (Binding.place paren signature.parameters list.arguments)

/-- Takes in the call of a site, and gives the offset past it. -/
def emitCall (s : Site) (r : Resolution) : Outcome (List Fragment × Nat) := do
  let written ← part text s.start s.memberSpan.stop
  match s.list with
  | none => raise (.missingList (String.ofList written)) s.memberSpan
  | some list =>
    let arguments ← bindArguments nested r.signature written list
    let whole ← span s.start (list.closeAt + 1)
    return (fragments ++ [.call ⟨r.target, r.function, arguments, whole⟩], list.closeAt + 1)

end Machine

def checked (nested : ValueKind → String → Except ParseError Tree) (kind : ValueKind)
    (source : String) :
    Outcome Tree :=
  .ofExcept (nested kind source)

section Equations

variable {nested : ValueKind → String → Except ParseError Tree} {text : List Char}
  {fragments : List Fragment}

theorem flush_eq {start : Nat} {cs rest : List Char} (h : RestAt text start (cs ++ rest)) :
    flush text fragments start (start + width cs) = .ok (withConstant fragments cs) := by
  unfold flush withConstant
  cases cs with
  | nil => simp
  | cons c cs =>
    have hpos := c.utf8Size_pos
    rw [if_pos (by rw [width_cons]; omega), part_of_restAt h]
    simp

theorem unknown_eq {α : Type} {s : CallSite} {rest : List Char}
    (h : RestAt text s.start (s.written ++ rest)) (why : Unresolved) :
    (unknown text (Site.of s) why : Outcome α) = .error ((s.unknown why).error s.nameSpan) := by
  have hwritten := part_of_restAt h
  have hspan : span s.start s.memberSpan.stop = .ok s.nameSpan := by
    apply span_of_le
    rw [s.memberSpan_stop]
    exact Nat.le_add_right _ _
  rw [← s.memberSpan_stop] at hwritten
  rw [unknown, Site.of]
  dsimp only
  rw [hspan, Outcome.ok_bind, hwritten, Outcome.ok_bind, raise_eq]
  rfl

theorem buildArguments_eq (as : List (Argument Origin)) :
    buildArguments (checked nested) as = .ofExcept (as.mapM (Argument.built nested)) := by
  induction as with
  | nil => rfl
  | cons a as ih =>
    rw [List.mapM_cons]
    cases a with
    | raw text =>
      rw [buildArguments, ih]
      cases as.mapM (Argument.built nested) <;> rfl
    | parsed kind source origin =>
      rw [buildArguments, ih, checked]
      simp only [Argument.built]
      cases nested kind source with
      | error e => rfl
      | ok t => cases as.mapM (Argument.built nested) <;> rfl

theorem bindArguments_eq (signature : Signature) (name : List Char) (list : ArgumentList) :
    bindArguments (checked nested) signature name (ListSite.of list) =
      .ofExcept (Binding.bind signature name list >>= List.mapM (Argument.built nested)) := by
  rw [bindArguments, ListSite.of]
  dsimp only
  rw [span_of_le (Nat.le_succ list.openAt), Outcome.ok_bind, Binding.bind]
  split
  · exact raise_eq _ _
  · exact buildArguments_eq _

/-- The call is taken in as it is planned. -/
theorem emitCall_eq {s : CallSite} {r : Resolution} {cursor : Nat} {rest : List Char}
    (hlayout : s.Layout cursor rest) (hrest : RestAt text cursor rest) :
    emitCall (checked nested) text fragments (Site.of s) r =
      match s.plan r with
      | .error e => .error e
      | .ok (c, list) => .ofExcept ((Item.built nested (.call c r.signature)).map fun f =>
        (fragments ++ [f], list.closeAt + 1)) := by
  obtain ⟨past, hname⟩ := hlayout.restAt_written hrest
  have hwritten := part_of_restAt hname
  rw [← s.memberSpan_stop] at hwritten
  rw [emitCall, Site.of]
  dsimp only
  rw [hwritten, Outcome.ok_bind, CallSite.plan]
  cases hlist : s.arguments with
  | none => exact raise_eq _ _
  | some list =>
    rw [Option.map_some]
    dsimp only
    rw [bindArguments_eq]
    cases Binding.bind r.signature s.written list with
    | error e => rfl
    | ok arguments =>
      have hle : s.start ≤ list.closeAt + 1 := by
        obtain ⟨body, -, hclose, -⟩ := hlayout.exists_body hlist
        omega
      change Outcome.ofExcept (arguments.mapM (Argument.built nested)) >>= _ = _
      simp only [Item.built]
      cases arguments.mapM (Argument.built nested) with
      | error e => rfl
      | ok bs =>
        change (span s.start (list.closeAt + 1) >>= _) = _
        rw [span_of_le hle]
        rfl

end Equations

end Octets

end SceneExpr
