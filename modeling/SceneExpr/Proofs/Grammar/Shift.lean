import SceneExpr.Proofs.CallSite.Shift
import SceneExpr.Proofs.Grammar.Number.Step
import SceneExpr.Proofs.Grammar.Text.Step

namespace SceneExpr.Grammar

namespace Number

def Step.shift (n : Nat) : Step → Step
  | .finish => .finish
  | .fail e => .fail (e.shift n)
  | .pass skipped rest => .pass skipped rest
  | .found lead planned signature =>
    .found lead (shiftResult n (fun found => (found.1.shift n, found.2.shift n)) planned) signature

theorem strictError?_shift (p : Parser) (site : CallSite) (n : Nat) :
    strictError? p (site.shift n) = (strictError? p site).map (·.shift n) := by
  have howner : (site.shift n).owner = site.owner := rfl
  have hmember : (site.shift n).member = site.member := rfl
  unfold strictError?
  rw [howner, hmember, CallSite.nameSpan_shift]
  split <;> rfl

theorem step_shift (p : Parser) (cursor n : Nat) (rest : List Char) :
    step p (cursor + n) rest = (step p cursor rest).shift n := by
  unfold step
  cases nextMark? .number rest with
  | none => rfl
  | some cut =>
    dsimp only
    rw [CallSite.read_shift]
    cases CallSite.read cursor cut with
    | error e => rfl
    | ok site =>
      have hresolve : resolve? p (site.shift n) = resolve? p site := rfl
      have hpass : passOver cut (site.shift n) = passOver cut site := rfl
      simp only [shiftResult, hresolve, hpass, strictError?_shift, CallSite.plan_shift]
      cases resolve? p site with
      | some r => rfl
      | none => cases strictError? p site <;> rfl

theorem scanFrom_shift (p : Parser) (cursor n : Nat) (pending rest : List Char) :
    scanFrom p (cursor + n) pending rest = (scanFrom p cursor pending rest).shift n := by
  induction cursor, pending, rest using scan_induction (p := p) with
  | finish cursor pending rest h =>
    have hn : step p (cursor + n) rest = .finish := by rw [step_shift, h, Step.shift]
    rw [scanFrom_of_finish pending h, scanFrom_of_finish pending hn, Scan.shift_constant]
    rfl
  | fail cursor pending rest e h =>
    have hn : step p (cursor + n) rest = .fail (e.shift n) := by rw [step_shift, h, Step.shift]
    rw [scanFrom_of_fail pending h, scanFrom_of_fail pending hn]
    rfl
  | pass cursor pending rest skipped past h ih =>
    have hn : step p (cursor + n) rest = .pass skipped past := by rw [step_shift, h, Step.shift]
    rw [scanFrom_of_pass pending h, scanFrom_of_pass pending hn, ← ih, Nat.add_right_comm]
  | unplanned cursor pending rest lead e signature h =>
    have hn : step p (cursor + n) rest = .found lead (.error (e.shift n)) signature := by
      rw [step_shift, h, Step.shift, shiftResult]
    rw [scanFrom_of_unplanned pending h, scanFrom_of_unplanned pending hn, Scan.shift_constant]
    rfl
  | call cursor pending rest lead c list signature h ih =>
    have hn : step p (cursor + n) rest = .found lead (.ok (c.shift n, list.shift n)) signature := by
      rw [step_shift, h, Step.shift, shiftResult]
    have hstop : (list.shift n).closeAt + 1 = list.closeAt + 1 + n := Nat.add_right_comm _ _ _
    have hrest : (list.shift n).rest = list.rest := rfl
    rw [scanFrom_of_call pending h, scanFrom_of_call pending hn, hstop, hrest, ih,
      Scan.shift_constant]
    rfl

end Number

namespace Text

theorem misplaced?_shift (plusAllowed : Bool) (offset n : Nat) (cs : List Char) :
    misplaced? plusAllowed (offset + n) cs =
      (misplaced? plusAllowed offset cs).map fun m => (m.1 + n, m.2) := by
  induction cs generalizing offset with
  | nil => rfl
  | cons c cs ih =>
    rw [misplaced?, misplaced?]
    split
    · rw [Nat.add_right_comm, ih]
    · rfl

theorem pluses_shift (offset n : Nat) (cs : List Char) :
    pluses (offset + n) cs = (pluses offset cs).map (· + n) := by
  induction cs generalizing offset with
  | nil => rfl
  | cons c cs ih =>
    rw [pluses, pluses, Nat.add_right_comm, ih]
    split <;> rfl

theorem unexpected_shift (fault : String → Fault) (offset n : Nat) (cs : List Char) :
    unexpected fault (offset + n) cs = (unexpected fault offset cs).shift n := by
  unfold unexpected
  dsimp only
  rw [Nat.add_right_comm]
  rfl

theorem trailingError?_shift (offset n : Nat) (cs : List Char) :
    trailingError? (offset + n) cs = (trailingError? offset cs).map (·.shift n) := by
  unfold trailingError?
  rw [misplaced?_shift, Option.map_map, Option.map_map]
  congr 1
  funext m
  exact unexpected_shift .trailingText m.1 n m.2

theorem gapError?_shift (started : Bool) (offset n : Nat) (gap past : List Char) :
    gapError? started (offset + n) gap past =
      (gapError? started offset gap past).map (·.shift n) := by
  unfold gapError?
  rw [misplaced?_shift]
  cases misplaced? started offset gap with
  | some m => exact congrArg some (unexpected_shift .unexpectedText m.1 n (m.2 ++ past))
  | none =>
    cases started with
    | false => rfl
    | true =>
      dsimp only [Option.map_none]
      rw [pluses_shift, if_pos rfl, if_pos rfl]
      match pluses offset gap with
      | [] =>
        dsimp only [List.map_nil]
        rw [Nat.add_right_comm]
        rfl
      | [_] => rfl
      | first :: second :: more =>
        have hspan : (⟨first + n, first + n + 1⟩ : Span) =
            Span.shift ⟨first, first + 1⟩ n := by
          rw [Span.shift, Nat.add_right_comm]
        exact congrArg (fun span => some (Fault.doubledPlus.error span)) hspan

def Token.shift (t : Token) (n : Nat) : Token :=
  { t with item := t.item.shift n, stop := t.stop + n }

theorem readLiteral_shift (opened n : Nat) (after : List Char) :
    readLiteral (opened + n) after = shiftResult n (·.shift n) (readLiteral opened after) := by
  unfold readLiteral
  cases Literal.cut? after with
  | none =>
    dsimp only
    rw [Nat.add_right_comm opened n 1, Nat.add_right_comm]
    rfl
  | some found =>
    dsimp only
    rw [Nat.add_right_comm opened n, Nat.add_right_comm]
    rfl

theorem resolve_shift (p : Parser) (site : CallSite) (n : Nat) :
    resolve p (site.shift n) = shiftResult n id (resolve p site) := by
  have hfind : Resolution.find p.catalog p.scene .text (site.shift n) =
    Resolution.find p.catalog p.scene .text site := rfl
  have hwell : (site.shift n).isWellFormed = site.isWellFormed := rfl
  have hunknown (why : Unresolved) : (site.shift n).unknown why = site.unknown why := rfl
  unfold resolve
  simp only [hfind, hwell, hunknown, CallSite.nameSpan_shift]
  split
  · cases Resolution.find p.catalog p.scene .text site <;> rfl
  · rfl

theorem readCall_shift (p : Parser) (cursor n : Nat) (cut : MarkedCut) :
    readCall p (cursor + n) cut = shiftResult n (·.shift n) (readCall p cursor cut) := by
  unfold readCall
  rw [CallSite.read_shift]
  cases CallSite.read cursor cut with
  | error e => rfl
  | ok site =>
    simp only [shiftResult]
    rw [resolve_shift]
    cases resolve p site with
    | error e => rfl
    | ok r =>
      simp only [shiftResult, id]
      rw [CallSite.plan_shift]
      cases site.plan r with
      | error e => rfl
      | ok found =>
        simp only [shiftResult, Token.shift, ArgumentList.shift, Nat.add_right_comm]
        rfl

theorem readToken_shift (p : Parser) (cursor n : Nat) (cut : MarkedCut) :
    readToken p (cursor + n) cut = shiftResult n (·.shift n) (readToken p cursor cut) := by
  unfold readToken
  rw [Nat.add_right_comm]
  split
  · exact readLiteral_shift _ n cut.after
  · exact readCall_shift p cursor n cut

theorem shift_afterGap (started : Bool) (gap : List Char) (s : Scan) (n : Nat) :
    (afterGap started gap s).shift n = afterGap started gap (s.shift n) := by
  unfold afterGap
  split
  · exact Scan.shift_constant gap s n
  · rfl

theorem scanFrom_shift (p : Parser) (cursor n : Nat) (started : Bool) (rest : List Char) :
    scanFrom p (cursor + n) started rest = (scanFrom p cursor started rest).shift n := by
  induction cursor, started, rest using scan_induction (p := p) with
  | finish cursor started rest hcut =>
    rw [scanFrom_of_finish hcut, scanFrom_of_finish hcut, trailingError?_shift]
    rfl
  | gap cursor started rest cut e hcut hgap =>
    have hgap' := gapError?_shift started cursor n (gapOf cut) (tokenText cut)
    rw [hgap, Option.map_some] at hgap'
    rw [scanFrom_of_gap hcut hgap, scanFrom_of_gap hcut hgap']
    rfl
  | fail cursor started rest cut e hcut hgap hread =>
    have hgap' := gapError?_shift started cursor n (gapOf cut) (tokenText cut)
    rw [hgap, Option.map_none] at hgap'
    have hread' := readToken_shift p cursor n cut
    rw [hread, shiftResult] at hread'
    rw [scanFrom_of_fail hcut hgap hread, scanFrom_of_fail hcut hgap' hread', shift_afterGap]
    rfl
  | token cursor started rest cut t hcut hgap hread ih =>
    have hgap' := gapError?_shift started cursor n (gapOf cut) (tokenText cut)
    rw [hgap, Option.map_none] at hgap'
    have hread' := readToken_shift p cursor n cut
    rw [hread, shiftResult] at hread'
    have hstop : (t.shift n).stop = t.stop + n := rfl
    have hpast : (t.shift n).past = t.past := rfl
    rw [scanFrom_of_token hcut hgap hread, scanFrom_of_token hcut hgap' hread', hstop, hpast, ih,
      shift_afterGap]
    rfl

end Text

end SceneExpr.Grammar
