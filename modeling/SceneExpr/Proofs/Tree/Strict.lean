import Mathlib
import SceneExpr.Catalog.Standard
import SceneExpr.Proofs.Grammar.Number.Step
import SceneExpr.Proofs.Grammar.Text.Step
import SceneExpr.Proofs.Tree.Agreement

namespace SceneExpr

def Parser.withPolicy (p : Parser) (policy : UnknownFunctions) : Parser :=
  { p with options := { p.options with unknownFunctions := policy } }

namespace Grammar.Number

theorem kind_of_strictError? {p : Parser} {site : CallSite} {e : ParseError}
    (h : strictError? p site = some e) : e.kind = .unknownFunction := by
  unfold strictError? at h
  split at h
  · obtain rfl := Option.some.inj h
    unfold CallSite.unknown
    cases site.owner <;> rfl
  · simp at h

theorem strictError?_passThrough (p : Parser) (site : CallSite) :
    strictError? (p.withPolicy .passThrough) site = none :=
  if_neg fun h => by cases h.1

/-- A step under the strict policy is a step without it, or else fails. -/
theorem step_agrees (p : Parser) (cursor : Nat) (rest : List Char) :
    step (p.withPolicy .builtinsOnly) cursor rest = step (p.withPolicy .passThrough) cursor rest ∨
      ∃ e, step (p.withPolicy .builtinsOnly) cursor rest = .fail e ∧
        e.kind = .unknownFunction := by
  unfold step
  cases nextMark? .number rest with
  | none => exact .inl rfl
  | some cut =>
    dsimp only
    cases CallSite.read cursor cut with
    | error e => exact .inl rfl
    | ok site =>
      have hresolve : resolve? (p.withPolicy .builtinsOnly) site =
        resolve? (p.withPolicy .passThrough) site := rfl
      dsimp only
      rw [hresolve, strictError?_passThrough]
      cases resolve? (p.withPolicy .passThrough) site with
      | some r => exact .inl rfl
      | none =>
        cases hstrict : strictError? (p.withPolicy .builtinsOnly) site with
        | none => exact .inl rfl
        | some e => exact .inr ⟨e, rfl, kind_of_strictError? hstrict⟩

theorem step_passThrough {p : Parser} {cursor : Nat} {rest : List Char} {s : Step}
    (h : step (p.withPolicy .builtinsOnly) cursor rest = s) (hs : ∀ e, s ≠ .fail e) :
    step (p.withPolicy .passThrough) cursor rest = s := by
  rcases step_agrees p cursor rest with heq | ⟨e, he, -⟩
  · rw [← heq, h]
  · exact absurd (h.symm.trans he) (hs e)

theorem scanFrom_agrees (p : Parser) (cursor : Nat) (pending rest : List Char) :
    Scan.CutShort .unknownFunction (scanFrom (p.withPolicy .builtinsOnly) cursor pending rest)
      (scanFrom (p.withPolicy .passThrough) cursor pending rest) := by
  induction cursor, pending, rest using scan_induction (p := p.withPolicy .builtinsOnly) with
  | finish cursor pending rest h =>
    have h' := step_passThrough h (by simp)
    rw [scanFrom_of_finish pending h, scanFrom_of_finish pending h']
    exact .refl _
  | fail cursor pending rest e h =>
    rw [scanFrom_of_fail pending h]
    rcases step_agrees p cursor rest with heq | ⟨e', he', hkind⟩
    · rw [scanFrom_of_fail pending (heq.symm.trans h)]
      exact .refl _
    · obtain rfl := Step.fail.inj (h.symm.trans he')
      exact .stopped hkind _
  | pass cursor pending rest skipped past h ih =>
    have h' := step_passThrough h (by simp)
    rw [scanFrom_of_pass pending h, scanFrom_of_pass pending h']
    exact ih
  | unplanned cursor pending rest lead e signature h =>
    have h' := step_passThrough h (by simp)
    rw [scanFrom_of_unplanned pending h, scanFrom_of_unplanned pending h']
    exact .refl _
  | call cursor pending rest lead c list signature h ih =>
    have h' := step_passThrough h (by simp)
    rw [scanFrom_of_call pending h, scanFrom_of_call pending h']
    exact (ih.cons _).constant _

end Grammar.Number

namespace Parser

theorem scan_agrees (p : Parser) (kind : ValueKind) (text : String) :
    Scan.CutShort .unknownFunction ((p.withPolicy .builtinsOnly).scan kind text)
      ((p.withPolicy .passThrough).scan kind text) := by
  cases kind with
  | number => exact Grammar.Number.scanFrom_agrees p 0 [] text.toList
  | text =>
    -- The policy is for number expressions only.
    have hread (cursor : Nat) (cut : MarkedCut) : Grammar.Text.readToken
        (p.withPolicy .builtinsOnly)
        cursor cut = Grammar.Text.readToken (p.withPolicy .passThrough) cursor cut := rfl
    exact .inl (Grammar.Text.scan_congr hread text.toList)

theorem enter_agrees (p : Parser) (levels : Nat) (kind : ValueKind) (text : String) :
    AgreesBut .unknownFunction ((p.withPolicy .builtinsOnly).enter levels kind text)
      ((p.withPolicy .passThrough).enter levels kind text) := by
  induction levels generalizing kind text with
  | zero => exact .refl _
  | succ levels ih => exact buildWith_agrees ih (p.scan_agrees kind text)

/-- What is built under the strict policy is built without it, and an error is the same error unless
it is that of an unknown function. -/
theorem passThrough_of_builtinsOnly (p : Parser) (kind : ValueKind) (text : String) :
    (∀ t, (p.withPolicy .builtinsOnly).build kind text = .ok t →
      (p.withPolicy .passThrough).build kind text = .ok t) ∧
    ∀ e, (p.withPolicy .builtinsOnly).build kind text = .error e →
      e.kind ≠ .unknownFunction →
      (p.withPolicy .passThrough).build kind text = .error e := by
  have hagrees : AgreesBut .unknownFunction ((p.withPolicy .builtinsOnly).build kind text)
      ((p.withPolicy .passThrough).build kind text) := by
    rw [build_eq_enter, build_eq_enter]
    exact p.enter_agrees _ kind text
  exact ⟨fun _ ht => hagrees.eq_ok ht, fun _ he hkind => hagrees.eq_error he hkind⟩

/-- Built-in names may be called under either policy, and too many arguments are the same error. A
name that is known to neither the catalog nor the evaluator is an error under the strict policy
only. -/
theorem passThrough_of_builtinsOnly_random :
    let p : Parser := ⟨.indexed "1.0" [
        Catalog.Standard.function "Random" .number [Catalog.Standard.given .expression "max"]],
      .empty, {}⟩
    let t : Tree := .node .number [.constant "abs(",
      .call ⟨.static, "Random", [.parsed .number "2" (.node .number [.constant "2"])],
        ⟨4, 13⟩⟩,
      .constant ")"]
    let e : ParseError := (Fault.arity "Random" 1 1 2).error ⟨6, 7⟩
    let strict : ParseError := (Fault.unknownStatic "sum2").error ⟨0, 4⟩
    (p.withPolicy .builtinsOnly).build .number "abs(Random(2))" = .ok t ∧
      (p.withPolicy .passThrough).build .number "abs(Random(2))" = .ok t ∧
      (p.withPolicy .builtinsOnly).build .number "Random(1, 2)" = .error e ∧
      e.kind ≠ .unknownFunction ∧
      (p.withPolicy .passThrough).build .number "Random(1, 2)" = .error e ∧
      (p.withPolicy .builtinsOnly).build .number "sum2(2)" = .error strict ∧
      (p.withPolicy .passThrough).build .number "sum2(2)" =
      .ok (.node .number [.constant "sum2(2)"]) := by
  intro p t e strict
  have ht : (p.withPolicy .builtinsOnly).build .number "abs(Random(2))" = .ok t := by cbv
  have he : (p.withPolicy .builtinsOnly).build .number "Random(1, 2)" = .error e := by cbv
  have hkind : e.kind ≠ .unknownFunction := by decide
  exact ⟨ht, (passThrough_of_builtinsOnly p .number _).1 t ht, he, hkind,
    (passThrough_of_builtinsOnly p .number _).2 e he hkind, by cbv, by cbv⟩

end Parser

end SceneExpr
