import Mathlib
import SceneExpr.Catalog.Standard
import SceneExpr.Proofs.Grammar.Faults
import SceneExpr.Proofs.Grammar.Number.Step
import SceneExpr.Proofs.Grammar.Text.Step
import SceneExpr.Proofs.Tree.Agreement
import SceneExpr.Proofs.Tree.Height
import SceneExpr.Proofs.Tree.Machine

namespace SceneExpr.Parser

def withLimit (p : Parser) (limit : Nat) : Parser :=
  { p with options := { p.options with maxDepth := limit } }

/-- The limit is no matter of a single text. -/
theorem scan_withLimit (p : Parser) (limit : Nat) (kind : ValueKind) (text : String) :
    (p.withLimit limit).scan kind text = p.scan kind text := by
  cases kind with
  | number =>
    have hstep (cursor : Nat) (rest : List Char) :
      Grammar.Number.step (p.withLimit limit) cursor rest = Grammar.Number.step p cursor rest := rfl
    exact Grammar.Number.scanFrom_congr hstep 0 [] text.toList
  | text =>
    have hread (cursor : Nat) (cut : MarkedCut) :
      Grammar.Text.readToken (p.withLimit limit) cursor cut = Grammar.Text.readToken p cursor cut :=
        rfl
    exact Grammar.Text.scan_congr hread text.toList

/-- With more levels left, whatever the limits say, a result stays as it is unless it is the error
of the limit. -/
theorem enter_withLimit_agrees (p : Parser) (limit limit' : Nat) {levels levels' : Nat}
    (hle : levels ≤ levels') (kind : ValueKind) (text : String) :
    AgreesBut .nestingTooDeep ((p.withLimit limit).enter levels kind text)
      ((p.withLimit limit').enter levels' kind text) := by
  induction levels generalizing levels' kind text with
  | zero => exact .error rfl _
  | succ levels ih =>
    obtain ⟨levels', rfl⟩ : ∃ n, levels' = n + 1 := ⟨levels' - 1, by omega⟩
    apply buildWith_agrees fun kind' source => ih (by omega) kind' source
    rw [scan_withLimit, scan_withLimit]
    exact .refl _

/-- A tree has at most as many levels as were left for it. -/
theorem height_lt_of_enter {p : Parser} {levels : Nat} {kind : ValueKind} {text : String} {t : Tree}
    (h : p.enter levels kind text = .ok t) : t.height < levels := by
  induction levels generalizing kind text t with
  | zero => cases h
  | succ levels ih =>
    cases hheight : t.height with
    | zero => exact levels.succ_pos
    | succ n =>
      obtain ⟨c, kind', source, u, hc, ha, rfl⟩ := Tree.exists_argument_of_height hheight
      exact Nat.succ_lt_succ (ih (argument_of_buildWith h hc ha).1)

/-- A tree that is built within a limit is built within any greater one, and so is any error but
that of the limit itself; and the tree has no more levels of arguments than the limit says. -/
theorem build_of_limit_le (p : Parser) (kind : ValueKind) (text : String) {limit limit' : Nat}
    (hle : limit ≤ limit') :
    (∀ t, (p.withLimit limit).build kind text = .ok t →
      (p.withLimit limit').build kind text = .ok t ∧ t.height ≤ limit) ∧
    ∀ e, (p.withLimit limit).build kind text = .error e → e.kind ≠ .nestingTooDeep →
      (p.withLimit limit').build kind text = .error e := by
  have hagrees : AgreesBut .nestingTooDeep ((p.withLimit limit).build kind text)
      ((p.withLimit limit').build kind text) := by
    rw [build_eq_enter, build_eq_enter]
    exact p.enter_withLimit_agrees limit limit' (Nat.succ_le_succ hle) kind text
  refine ⟨fun t ht => ⟨hagrees.eq_ok ht, ?_⟩, fun _ he hkind => hagrees.eq_error he hkind⟩
  rw [build_eq_enter] at ht
  exact Nat.le_of_lt_succ (height_lt_of_enter ht)

/-- Two levels are built within either limit, and so is a wrong number of arguments; the third level
is an error within the smaller limit only. -/
theorem build_of_limit_le_abs :
    let p : Parser := ⟨.indexed "1.0" [
        Catalog.Standard.function "Abs" .number [Catalog.Standard.given .expression "x"]],
        .empty, {}⟩
    let abs (source : String) (t : Tree) (stop : Nat) : Tree := .node .number [
      .call ⟨.static, "Abs", [.parsed .number source t], ⟨0, stop⟩⟩]
    let one : Tree := .node .number [.constant "1"]
    let t := abs "Abs(1)" (abs "1" one 6) 11
    let e : ParseError := (Fault.arity "Abs" 1 1 2).error ⟨7, 8⟩
    2 ≤ 3 ∧ (p.withLimit 2).build .number "Abs(Abs(1))" = .ok t ∧
      ((p.withLimit 3).build .number "Abs(Abs(1))" = .ok t ∧ t.height ≤ 2) ∧
      (p.withLimit 2).build .number "Abs(Abs(1, 2))" = .error e ∧ e.kind ≠ .nestingTooDeep ∧
      (p.withLimit 3).build .number "Abs(Abs(1, 2))" = .error e ∧
      (p.withLimit 2).build .number "Abs(Abs(Abs(1)))" =
      .error ((Fault.tooDeep 2).error ⟨12, 13⟩) ∧
      (p.withLimit 3).build .number "Abs(Abs(Abs(1)))" = .ok (abs "Abs(Abs(1))" t 16) := by
  intro p abs one t e
  have hle : 2 ≤ 3 := by decide
  have ht : (p.withLimit 2).build .number "Abs(Abs(1))" = .ok t := by cbv
  have he : (p.withLimit 2).build .number "Abs(Abs(1, 2))" = .error e := by cbv
  have hkind : e.kind ≠ .nestingTooDeep := by decide
  exact ⟨hle, ht, (build_of_limit_le p .number _ hle).1 t ht, he, hkind,
    (build_of_limit_le p .number _ hle).2 e he hkind, by cbv, by cbv⟩

/-- Each level of arguments takes an opening parenthesis away from what is left of the text. -/
theorem kind_ne_of_enter_error {p : Parser}
    (hdefaults : ∀ q ∈ p.parameters, '(' ∉ q.defaultValue.toList) {levels : Nat}
    {kind : ValueKind} {text : String} (hcount : text.toList.count '(' < levels) {e : ParseError}
    (h : p.enter levels kind text = .error e) : e.kind ≠ .nestingTooDeep := by
  induction levels generalizing kind text e with
  | zero => exact absurd hcount (Nat.not_lt_zero _)
  | succ levels ih =>
    rcases buildWith_eq_error_iff.1 h
      with ⟨hscan, -⟩ | ⟨kind', source, origin, inner, hfirst, hinner, rfl⟩
    · exact (p.faultsOfText_scan kind text e hscan).kind_ne
    · rw [Origin.kind_locate]
      refine ih ?_ hinner
      cases hfirst with
      | @intro before after c signature as bs _ _ hsplit _ harguments _ =>
        have hitem : Item.call c signature ∈ (p.scan kind text).items := by simp [hsplit]
        have ha : .parsed kind' source origin ∈ c.arguments := by simp [harguments]
        have hopen := List.count_pos_iff.2 (open_mem_of_call hitem)
        -- A written argument lacks the parenthesis of its call, and what stands in for one has none
        -- at all.
        rcases source_of_planned hitem ha with
          ⟨front, back, htext, hfront, -⟩ | ⟨q, hq, -, rfl⟩ | hsource
        · have hfront := List.count_pos_iff.2 hfront
          rw [htext, List.count_append, List.count_append] at hcount
          omega
        · rw [List.count_eq_zero.2 (hdefaults q hq)]
          omega
        · rw [List.count_eq_zero.2 hsource]
          omega

/-- Where no default value has an opening parenthesis, a text with no more of them than the limit is
not nested too deep. And whatever the default values are, building comes to an end: a machine that
builds the tree in steps of its own is at rest after so many of them, with the same tree or
error. -/
theorem build_ends (p : Parser) (kind : ValueKind) (text : String) :
    ((∀ q ∈ p.parameters, '(' ∉ q.defaultValue.toList) →
      text.toList.count '(' ≤ p.options.maxDepth →
      ∀ e, p.build kind text = .error e → e.kind ≠ .nestingTooDeep) ∧
    ∃ n, ∀ m, n ≤ m →
      Assembly.run p m (Assembly.ask p kind text []) = .returns (p.build kind text) [] := by
  refine ⟨fun hdefaults hcount e he => ?_, Assembly.run_ask_ends p kind text⟩
  rw [build_eq_enter] at he
  exact kind_ne_of_enter_error hdefaults (Nat.lt_succ_of_le hcount) he

/-- Two parentheses fail within a limit of two for another reason, and three are nested too deep. A
default value that calls its own function is nested too deep in any case, and building it ends
nevertheless. -/
theorem build_ends_loop :
    let abs := Catalog.Standard.function "Abs" .number [Catalog.Standard.given .expression "x"]
    let loop := Catalog.Standard.function "Loop" .number
      [Catalog.Standard.allowed .expression "x" "Loop() + Loop()"]
    let p : Parser := ⟨.indexed "1.0" [abs], .empty, { maxDepth := 2 }⟩
    let looping : Parser := ⟨.indexed "1.0" [abs, loop], .empty, { maxDepth := 2 }⟩
    let arity : ParseError := (Fault.arity "Abs" 1 1 0).error ⟨7, 8⟩
    let tooDeep : ParseError := (Fault.tooDeep 2).error ⟨4, 5⟩
    (p.build .number "Abs(Abs())" = .error arity ∧ arity.kind ≠ .nestingTooDeep) ∧
      p.build .number "Abs(Abs(Abs(1)))" = .error ((Fault.tooDeep 2).error ⟨12, 13⟩) ∧
      looping.build .number "Loop()" = .error tooDeep ∧
      ∃ n, ∀ m, n ≤ m → Assembly.run looping m (Assembly.ask looping .number "Loop()" []) =
        .returns (.error tooDeep) [] := by
  intro abs loop p looping arity tooDeep
  have harity : p.build .number "Abs(Abs())" = .error arity := by cbv
  have hloop : looping.build .number "Loop()" = .error tooDeep := by cbv
  refine ⟨⟨harity, ?_⟩, by cbv, hloop, ?_⟩
  · exact (build_ends p .number "Abs(Abs())").1 (by decide) (by decide) arity harity
  · rw [← hloop]
    exact (build_ends looping .number "Loop()").2

end SceneExpr.Parser
