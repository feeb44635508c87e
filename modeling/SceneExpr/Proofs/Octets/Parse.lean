import SceneExpr.Proofs.Octets.Number
import SceneExpr.Proofs.Octets.Text
import SceneExpr.Proofs.Tree.Levels

namespace SceneExpr.Octets

def run (p : Parser) (nested : ValueKind → String → Outcome Tree) (kind : ValueKind)
    (text : List Char) :
    Outcome (List Fragment) :=
  match kind with
  | .number => runNumber p nested text (text.length + 1) [] 0 0
  | .text =>
    if (findMark? text 0 .text).isNone then raise .emptyExpression (.empty 0)
    else runText p nested text (text.length + 1) [] 0 none

def enter (p : Parser) : (levels : Nat) → ValueKind → String → Outcome Tree
  | 0, _, text => do
    let whole ← span 0 (octets text.toList).length
    raise (.tooDeep p.options.maxDepth) whole
  | levels + 1, kind, text => do
    let fragments ← run p (enter p levels) kind text.toList
    return .node kind fragments

def parse (p : Parser) (kind : ValueKind) (text : String) : Outcome ParseResult :=
  match enter p (p.options.maxDepth + 1) kind text with
  | .panic p => .panic p
  | .error e => .ok ⟨none, [e.toDiagnostic]⟩
  | .ok tree => .ok ⟨some tree, []⟩

variable {p : Parser} {nested : ValueKind → String → Except ParseError Tree}

theorem run_eq (kind : ValueKind) (text : String) :
    run p (checked nested) kind text.toList = .ofExcept ((p.scan kind text).built nested) := by
  have hwhole := RestAt.whole text.toList
  have hfuel := Nat.lt_succ_self text.toList.length
  have hbuilt (s : Scan) : s.builtAfter nested [] = s.built nested := by
    unfold Scan.builtAfter
    cases s.built nested <;> rfl
  cases kind with
  | number =>
    have hrun : runNumber p (checked nested) text.toList (text.toList.length + 1) [] 0 0 =
        .ofExcept ((p.scan .number text).builtAfter nested []) :=
      runNumber_eq hfuel (by rwa [List.nil_append]) rfl []
    rw [run, hrun, hbuilt]
  | text =>
    change _ = Outcome.ofExcept ((Grammar.Text.scan p text.toList).built nested)
    rw [run, findMark?_eq hwhole, Grammar.Text.scan, Option.isNone_map]
    split
    · exact raise_eq _ _
    · have hrun : runText p (checked nested) text.toList (text.toList.length + 1) [] 0 none =
          .ofExcept ((Grammar.Text.scanFrom p 0 false text.toList).builtAfter nested []) :=
        runText_eq hfuel hwhole rfl []
      rw [hrun, hbuilt]

theorem enter_eq (p : Parser) (levels : Nat) : enter p levels = checked (p.enter levels) := by
  induction levels with
  | zero =>
    funext kind text
    rw [enter, length_octets, span_of_le (Nat.zero_le _), Outcome.ok_bind]
    exact raise_eq _ _
  | succ levels ih =>
    funext kind text
    rw [enter, ih, run_eq, checked, Parser.enter, Parser.buildWith_eq]
    cases (p.scan kind text).built (p.enter levels) <;> rfl

/-- Parsing never panics. -/
theorem parse_eq (p : Parser) (kind : ValueKind) (text : String) :
    parse p kind text = .ok (p.parse kind text) := by
  rw [parse, enter_eq, ← Parser.build_eq_enter, Parser.parse, checked]
  cases p.build kind text <;> rfl

end SceneExpr.Octets
