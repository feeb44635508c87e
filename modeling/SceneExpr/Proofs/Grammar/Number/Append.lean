import Mathlib
import SceneExpr.Catalog.Standard
import SceneExpr.Proofs.CallSite.Extend
import SceneExpr.Proofs.Grammar.Number.Coverage
import SceneExpr.Proofs.Grammar.Shift
import SceneExpr.Proofs.Octets.Basic
import SceneExpr.Proofs.Tree.Merge

namespace SceneExpr.Grammar.Number

theorem nextMark?_eq_none {cs : List Char} (h : ∀ c ∈ cs, c ≠ '.' ∧ c ≠ '(') :
    nextMark? .number cs = none := by
  apply nextMark?_eq_none_iff.2
  intro c hc
  obtain ⟨hdot, hparen⟩ := h c hc
  rw [Mark.ofChar?, if_neg hdot, if_neg hparen, if_neg (by simp)]

def Step.behind (front : List Char) : Step → Step
  | .finish => .finish
  | .fail e => .fail e
  | .pass skipped rest => .pass (front ++ skipped) rest
  | .found lead planned signature => .found (front ++ lead) planned signature

section Behind

variable (p : Parser) (cursor : Nat) {front : List Char}

theorem step_behind (hmark : nextMark? .number front = none) (hfront : EndsApart front)
    (rest : List Char) :
    step p cursor (front ++ rest) = (step p (cursor + width front) rest).behind front := by
  unfold step
  rw [nextMark?_append_of_none hmark]
  cases nextMark? .number rest with
  | none => rfl
  | some cut =>
    dsimp only [Option.map_some]
    rw [CallSite.read_behind hfront]
    cases CallSite.read (cursor + width front) cut with
    | error e => rfl
    | ok site =>
      have hresolve : resolve? p (site.behind front) = resolve? p site := rfl
      have hstrict : strictError? p (site.behind front) = strictError? p site := rfl
      have hplan (r : Resolution) : (site.behind front).plan r = site.plan r := rfl
      have hpass : passOver (cut.behind front) (site.behind front) =
          (front ++ (passOver cut site).1, (passOver cut site).2) := by
        have hwell : (site.behind front).isWellFormed = site.isWellFormed := rfl
        unfold passOver
        rw [hwell]
        split
        · exact congrArg (·, site.rest) (List.append_assoc front site.lead site.passed)
        · exact congrArg (·, cut.after) (List.append_assoc front cut.before [cut.mark.char])
      dsimp only [Except.map]
      rw [hresolve, hstrict, hpass]
      cases resolve? p site with
      | some r => rfl
      | none => cases strictError? p site <;> rfl

/-- Text without marks that ends in a separator is pending text. -/
theorem scanFrom_behind (hmark : nextMark? .number front = none) (hfront : EndsApart front)
    (pending rest : List Char) :
    scanFrom p cursor pending (front ++ rest) =
      scanFrom p (cursor + width front) (pending ++ front) rest := by
  rw [scanFrom_eq, scanFrom_eq p (cursor + width front), step_behind p cursor hmark hfront]
  match step p (cursor + width front) rest with
  | .finish => simp only [Step.behind, List.append_assoc]
  | .fail e => rfl
  | .pass skipped past => simp only [Step.behind, width_append, List.append_assoc, Nat.add_assoc]
  | .found lead (.error e) signature => simp only [Step.behind, List.append_assoc]
  | .found lead (.ok (c, list)) signature => simp only [Step.behind, List.append_assoc]

/-- Text without marks in front of an operator is pending text. -/
theorem scanFrom_append_op (hmark : nextMark? .number front = none) {op : Char}
    (hop : isSeparator op = true) (hdot : op ≠ '.') (hparen : op ≠ '(')
    (pending rest : List Char) :
    scanFrom p cursor pending (front ++ op :: rest) =
      scanFrom p (cursor + width front + op.utf8Size) (pending ++ front ++ [op]) rest := by
  have hop' : nextMark? .number [op] = none := nextMark?_eq_none (by simp [hdot, hparen])
  have hmark' : nextMark? .number (front ++ [op]) = none := by
    rw [nextMark?_append_of_none hmark, hop']
    rfl
  have hend : EndsApart (front ++ [op]) := ⟨front, op, rfl, hop⟩
  rw [List.append_cons, scanFrom_behind p cursor hmark' hend, width_append, ← Nat.add_assoc,
    ← List.append_assoc]
  rfl

end Behind

/-- A call is the same call in a longer text. -/
theorem step_append_of_call {p : Parser} {cursor : Nat} {rest lead : List Char}
    {call : Call Origin} {list : ArgumentList} {signature : Signature}
    (h : step p cursor rest = .found lead (.ok (call, list)) signature) (ds : List Char) :
    step p cursor (rest ++ ds) = .found lead (.ok (call, list.extend ds)) signature := by
  have hdoes := does_step p cursor rest
  rw [h] at hdoes
  cases hdoes with
  | @found cut site r _ hcut hread hr hplan =>
    have hr' : resolve? p (site.extend ds) = some r := hr
    have hread' := CallSite.read_extend_of_list hread (CallSite.arguments_of_plan hplan) ds
    rw [step_of_found (nextMark?_append_of_some hcut ds) hread' hr', CallSite.plan_extend, hplan]
    rfl

theorem closesFirst_of_scan {p : Parser} {cursor : Nat} {pending rest : List Char}
    (h : (scanFrom p cursor pending rest).error = none) : ClosesFirst rest := by
  intro inner hinner hdivide
  have hblank : nextMark? .number (rest.takeWhile isAsciiBlank) = none := by
    apply nextMark?_eq_none
    intro c hc
    have hc : isAsciiBlank c = true := List.all_eq_true.1 List.all_takeWhile c hc
    constructor <;> rintro rfl <;> exact absurd hc (by decide)
  have hopen : nextMark? .number ('(' :: inner) = some ⟨[], .paren, inner⟩ := rfl
  have hcut := nextMark?_append_of_none hblank ('(' :: inner)
  rw [← hinner, List.takeWhile_append_dropWhile, hinner, hopen, Option.map_some] at hcut
  obtain ⟨e, he⟩ : ∃ e, CallSite.read cursor (MarkedCut.behind ⟨[], .paren, inner⟩
      (rest.takeWhile isAsciiBlank)) = .error e := by
    change ∃ e, CallSite.atParen cursor _ inner = .error e
    rw [CallSite.atParen_eq, ArgumentList.read, hdivide]
    exact ⟨_, rfl⟩
  rw [scanFrom_of_fail pending (step_of_unread hcut he)] at h
  cases h

/-- A member that ran to the end of the text is no name any more when it runs past an operator. -/
theorem step_append_of_unended {p : Parser} {cursor : Nat} {rest : List Char} {cut : MarkedCut}
    (hcut : nextMark? .number rest = some cut) (hmark : cut.mark = .dot) {op : Char}
    (hop : isSeparator op = true) (hend : (!CallSite.endsMember op) = true)
    (hafter : ∀ c ∈ cut.after, (!CallSite.endsMember c) = true) (ds : List Char) :
    step p cursor (rest ++ op :: ds) = .pass (cut.before ++ ['.']) (cut.after ++ op :: ds) := by
  have hmark' : (cut.extend (op :: ds)).mark = .dot := hmark
  generalize hsite : CallSite.bareAtDot cursor cut.before (cut.after ++ op :: ds) = site
  have howner : site.owner = some (lastIdentifier cut.before) := by rw [← hsite]; rfl
  have hmember : op ∈ site.member := by
    rw [← hsite, CallSite.bareAtDot, List.takeWhile_append_of_pos hafter,
      List.takeWhile_cons_of_pos (p := fun c => !CallSite.endsMember c) hend]
    simp
  have hwell : ¬site.isWellFormed = true := by
    have hany : site.member.any isSeparator = true := List.any_eq_true.2 ⟨op, hmember, hop⟩
    simp [CallSite.isWellFormed, howner, hany]
  have hread : CallSite.read cursor (cut.extend (op :: ds)) = .ok site := by
    rw [CallSite.read, hmark']
    change CallSite.atDot cursor cut.before (cut.after ++ op :: ds) = _
    rw [CallSite.atDot_eq, hsite, if_neg hwell]
  have hresolve : resolve? p site = none := if_neg hwell
  have hstrict : strictError? p site = none := by simp [strictError?, howner]
  have hpass : passOver (cut.extend (op :: ds)) site =
      (cut.before ++ ['.'], cut.after ++ op :: ds) := by
    rw [passOver, if_neg hwell, hmark']
    rfl
  exact step_of_passed (nextMark?_append_of_some hcut (op :: ds)) hread hresolve hstrict hpass

/-- A name that runs to the end of the text leaves nothing of it, and holds no mark. -/
theorem passed_of_unended {cursor : Nat} {cut : MarkedCut} {site : CallSite}
    (hmark : cut.mark = .dot) (hread : CallSite.read cursor cut = .ok site)
    (hafter : ∀ c ∈ cut.after, (!CallSite.endsMember c) = true)
    (hwell : site.isWellFormed = true) :
    site.lead ++ site.passed = cut.before ++ ['.'] ++ cut.after ∧ site.rest = [] ∧
      nextMark? .number cut.after = none := by
  obtain ⟨arguments, rfl⟩ := CallSite.bare_of_read hmark hread
  have hmember : cut.after.takeWhile (fun c => !CallSite.endsMember c) = cut.after :=
    List.takeWhile_eq_self_iff.2 hafter
  refine ⟨?_, List.dropWhile_eq_nil_iff.2 hafter, nextMark?_eq_none ?_⟩
  · change beforeIdentifier cut.before ++ (lastIdentifier cut.before ++ '.' ::
      cut.after.takeWhile fun c => !CallSite.endsMember c) = _
    rw [hmember, ← List.append_assoc, beforeIdentifier_append_lastIdentifier, List.append_cons]
  · intro c hc
    have hsep : isSeparator c = false := by
      simp only [CallSite.isWellFormed, CallSite.bareAtDot, hmember, Bool.and_eq_true,
        Bool.not_eq_true'] at hwell
      exact eq_false_of_ne_true fun htrue =>
        absurd (List.any_eq_true.2 ⟨c, hc, htrue⟩) (by simp [hwell.2])
    constructor <;> rintro rfl <;> exact absurd hsep (by decide)

/-- What is passed over does not depend on the list of the site or on the text behind it. -/
theorem passOver_extend {cut : MarkedCut} {site : CallSite} {skipped past : List Char}
    (h : passOver cut site = (skipped, past)) (arguments : Option ArgumentList) (ds : List Char) :
    passOver (cut.extend ds) { site with arguments := arguments, rest := site.rest ++ ds } =
      (skipped, past ++ ds) := by
  unfold passOver at h ⊢
  split at h
  next hwell =>
    obtain ⟨rfl, rfl⟩ := Prod.mk.inj h
    exact if_pos hwell
  next hwell =>
    obtain ⟨rfl, rfl⟩ := Prod.mk.inj h
    exact if_neg hwell

/-- A site that is found again in the longer text, with whatever list, is passed over there. -/
theorem step_append_of_ended {p : Parser} {cursor : Nat} {rest skipped past : List Char}
    {cut : MarkedCut} {site : CallSite} (hcut : nextMark? .number rest = some cut)
    (hresolve : resolve? p site = none) (hstrict : strictError? p site = none)
    (hpass : passOver cut site = (skipped, past)) {ds : List Char}
    (hread : ∃ arguments, CallSite.read cursor (cut.extend ds) =
      .ok { site with arguments := arguments, rest := site.rest ++ ds }) :
    step p cursor (rest ++ ds) = .pass skipped (past ++ ds) := by
  obtain ⟨arguments, hread⟩ := hread
  have hresolve' :
      resolve? p { site with arguments := arguments, rest := site.rest ++ ds } = none := hresolve
  have hstrict' :
      strictError? p { site with arguments := arguments, rest := site.rest ++ ds } = none := hstrict
  exact step_of_passed (nextMark?_append_of_some hcut ds) hread hresolve' hstrict'
    (passOver_extend hpass arguments ds)

/-- Text that is passed over is passed over in a longer text, too. -/
theorem scanFrom_append_of_pass {p : Parser} {cursor : Nat} {rest skipped past : List Char}
    (h : step p cursor rest = .pass skipped past) {op : Char} {ds : List Char}
    (hop : isSeparator op = true) (hdot : op ≠ '.') (hparen : op ≠ '(') (hds : ClosesFirst ds)
    (pending : List Char) :
    scanFrom p cursor pending (rest ++ op :: ds) =
      scanFrom p (cursor + width skipped) (pending ++ skipped) (past ++ op :: ds) := by
  have hdoes := does_step p cursor rest
  rw [h] at hdoes
  cases hdoes with
  | @pass cut site _ _ hcut hread hresolve hstrict hpass =>
    -- Either the same site is found again, at most with a list, or its member runs past the
    -- operator.
    by_cases hmember : cut.mark = .dot →
        (cut.after ++ op :: ds).dropWhile (fun c => !CallSite.endsMember c) =
          cut.after.dropWhile (fun c => !CallSite.endsMember c) ++ op :: ds
    · have hread' := CallSite.exists_read_extend hread (hds.cons hparen) hmember
      exact scanFrom_of_pass pending (step_append_of_ended hcut hresolve hstrict hpass hread')
    · obtain ⟨hmark, hne⟩ := Classical.not_imp.1 hmember
      obtain ⟨hafter, hend⟩ := CallSite.runs_on hne
      rw [scanFrom_of_pass pending (step_append_of_unended hcut hmark hop hend hafter ds)]
      unfold passOver at hpass
      split at hpass
      next hwell =>
        obtain ⟨hskip, hpast, hnone⟩ := passed_of_unended hmark hread hafter hwell
        -- One scan goes on behind the dot, the other behind the name; no mark lies in between.
        have hempty : nextMark? .number [] = none := rfl
        rw [hskip, hpast] at hpass
        obtain ⟨rfl, rfl⟩ := Prod.mk.inj hpass
        rw [scanFrom_append_op p _ hnone hop hdot hparen,
          scanFrom_append_op p _ hempty hop hdot hparen]
        simp only [width_append, width_nil, Nat.add_assoc, List.append_assoc, List.append_nil,
          Nat.add_zero]
      next =>
        obtain ⟨rfl, rfl⟩ := Prod.mk.inj hpass
        rw [hmark]
        rfl

theorem built_pending {nested : ValueKind → String → Except ParseError Tree} {p : Parser}
    {pre : List Char} (hpre : pre ≠ []) (cursor : Nat) (pending rest : List Char) :
    (scanFrom p cursor (pre ++ pending) rest).built nested =
      ((scanFrom p cursor pending rest).built nested).map
        (Fragment.glue (.constant (String.ofList pre))) := by
  induction cursor, pending, rest using scan_induction (p := p) with
  | finish cursor pending rest h =>
    rw [scanFrom_of_finish _ h, scanFrom_of_finish _ h, List.append_assoc]
    exact Scan.built_constant_append hpre (by simp [Scan.finished])
  | fail cursor pending rest e h =>
    rw [scanFrom_of_fail _ h, scanFrom_of_fail _ h]
    rfl
  | pass cursor pending rest skipped past h ih =>
    rw [scanFrom_of_pass _ h, scanFrom_of_pass _ h, List.append_assoc]
    exact ih
  | unplanned cursor pending rest lead e signature h =>
    rw [scanFrom_of_unplanned _ h, scanFrom_of_unplanned _ h, List.append_assoc]
    exact Scan.built_constant_append hpre (by simp [Scan.stopped])
  | call cursor pending rest lead c list signature h ih =>
    rw [scanFrom_of_call _ h, scanFrom_of_call _ h, List.append_assoc]
    exact Scan.built_constant_append hpre (by simp [Scan.cons, Item.segment, Segment.isConstant])

/-- What two texts hold with an operator in between: what the first holds, the operator, and what
the second holds, made one where constant texts meet. -/
theorem built_append {nested : ValueKind → String → Except ParseError Tree} {p : Parser}
    {op : Char} (hop : isSeparator op = true) (hdot : op ≠ '.') (hparen : op ≠ '(')
    {b : List Char} (cursor : Nat) (pending rest : List Char) {fa fb : List Fragment}
    (ha : (scanFrom p cursor pending rest).built nested = .ok fa)
    (hb : (scanFrom p (cursor + width rest + op.utf8Size) [] b).built nested = .ok fb) :
    (scanFrom p cursor pending (rest ++ op :: b)).built nested =
      .ok (fa.foldr Fragment.glue (Fragment.glue (.constant (String.ofList [op])) fb)) := by
  have hcloses : ClosesFirst b := closesFirst_of_scan (Scan.built_eq_ok_iff.1 hb).1
  -- The induction is on the scan of the first text. Where it ends, the second one begins.
  induction cursor, pending, rest using scan_induction (p := p) generalizing fa with
  | finish cursor pending rest h =>
    have hmark := nextMark?_of_step_finish h
    have hpre : pending ++ rest ++ [op] ≠ [] := by simp
    rw [scanFrom_of_finish pending h] at ha
    rw [scanFrom_append_op p cursor hmark hop hdot hparen,
      ← List.append_nil (pending ++ rest ++ [op]),
      built_pending hpre, hb, Scan.foldr_glue_of_built_constant ha, ← String.ofList_append]
    rfl
  | fail cursor pending rest e h =>
    rw [scanFrom_of_fail pending h] at ha
    cases (Scan.built_eq_ok_iff.1 ha).1
  | pass cursor pending rest skipped past h ih =>
    rw [scanFrom_of_pass pending h] at ha
    rw [scanFrom_append_of_pass h hop hdot hparen hcloses]
    apply ih ha
    rw [← append_of_step_pass h, width_append, ← Nat.add_assoc] at hb
    exact hb
  | unplanned cursor pending rest lead e signature h =>
    rw [scanFrom_of_unplanned pending h] at ha
    have herror := (Scan.built_eq_ok_iff.1 ha).1
    rw [Scan.error_constant] at herror
    cases herror
  | call cursor pending rest lead c list signature h ih =>
    rw [scanFrom_of_call pending h] at ha
    obtain ⟨f, gs, hf, hgs, rfl⟩ := Scan.built_constant_cons_eq_ok_iff.1 ha
    obtain ⟨body, hrest, hclose, -, -⟩ := body_of_step_call h
    have hend : cursor + width rest = list.closeAt + 1 + width list.rest := by
      rw [hrest, hclose]
      simp only [width_append]
      omega
    -- A call ends what is pending, so nothing behind it is merged with what is in front.
    have htoken : f.segment.isConstant = false := by
      rw [Item.segment_of_built hf]
      rfl
    rw [hend] at hb
    rw [scanFrom_of_call pending (step_append_of_call h (op :: b)),
      Fragment.foldr_glue_token htoken]
    exact Scan.built_constant_cons_eq_ok_iff.2 ⟨f, _, hf, ih hgs hb, rfl⟩

theorem utf8Size_of_isSeparator {c : Char} (h : isSeparator c = true) : c.utf8Size = 1 :=
  utf8Size_of_lt (lt_of_isSeparator h)

/-- Two number expressions with an operator in between are one number expression. It has the
fragments of the one, the operator, and the fragments of the other, merged where constant texts
meet. -/
theorem build_append_operator {p : Parser} {a b : String} {op : Char} {ta tb : Tree}
    (hop : isSeparator op = true) (hdot : op ≠ '.') (hparen : op ≠ '(')
    (ha : p.build .number a = .ok ta) (hb : p.build .number b = .ok tb) :
    p.build .number (a ++ String.singleton op ++ b) = .ok (.node .number (Fragment.merge
      (ta.fragments ++ .constant (String.singleton op) ::
        tb.fragments.map (·.shift (a.utf8ByteSize + 1))))) := by
  obtain ⟨nested, hnested⟩ := p.exists_nested
  rw [hnested] at ha hb ⊢
  have hfa : (scanFrom p 0 [] a.toList).built nested = .ok ta.fragments :=
    Parser.built_of_buildWith ha
  have hfb : (scanFrom p 0 [] b.toList).built nested = .ok tb.fragments :=
    Parser.built_of_buildWith hb
  have hmoved : (scanFrom p (0 + width a.toList + op.utf8Size) [] b.toList).built nested =
      .ok (tb.fragments.map (·.shift (a.utf8ByteSize + 1))) := by
    rw [utf8Size_of_isSeparator hop, width_toList, Nat.add_assoc, scanFrom_shift,
      Scan.built_shift, hfb]
    rfl
  have hmerged : Fragment.merge (tb.fragments.map (·.shift (a.utf8ByteSize + 1))) =
      tb.fragments.map (·.shift (a.utf8ByteSize + 1)) := by
    apply Fragment.merge_eq_self
    rw [Scan.segments_of_built hmoved]
    exact separated_scanFrom p _ [] b.toList
  have hscan := built_append hop hdot hparen 0 [] a.toList hfa hmoved
  have htext : a.toList ++ op :: b.toList = (a ++ String.singleton op ++ b).toList := by simp
  rw [htext, ← String.singleton_eq_ofList] at hscan
  change (p.scan .number (a ++ String.singleton op ++ b)).built nested = _ at hscan
  have hmerge : Fragment.merge (ta.fragments ++ .constant (String.singleton op) ::
      tb.fragments.map (·.shift (a.utf8ByteSize + 1))) =
        ta.fragments.foldr Fragment.glue (Fragment.glue (.constant (String.singleton op))
          (tb.fragments.map (·.shift (a.utf8ByteSize + 1)))) := by
    rw [Fragment.merge_append, Fragment.merge_cons, hmerged]
  rw [Parser.buildWith_eq, hscan, hmerge]
  rfl

/-- A member at the end of the first text runs past the operator, and the call behind it is
found. -/
theorem build_append_member_call :
    let p : Parser := ⟨.indexed "1.0" Catalog.Standard.mathFunctions, .empty, {}⟩
    let call (span : Span) : Fragment := .call ⟨.static, "Random",
      [.parsed .number "6" (.node .number [.constant "6"])], span⟩
    isSeparator '+' = true ∧
      p.build .number "Random(2) Hero.Foo" = .ok (.node .number [.call ⟨.static, "Random",
        [.parsed .number "2" (.node .number [.constant "2"])], ⟨0, 9⟩⟩,
        .constant " Hero.Foo"]) ∧
      p.build .number "Random(6)" = .ok (.node .number [call ⟨0, 9⟩]) ∧
      p.build .number ("Random(2) Hero.Foo" ++ String.singleton '+' ++ "Random(6)") =
        .ok (.node .number [.call ⟨.static, "Random",
          [.parsed .number "2" (.node .number [.constant "2"])], ⟨0, 9⟩⟩,
          .constant (" Hero.Foo" ++ String.singleton '+'), call ⟨19, 28⟩]) := by
  intro p call
  have ha : p.build .number "Random(2) Hero.Foo" = .ok (.node .number [.call ⟨.static, "Random",
      [.parsed .number "2" (.node .number [.constant "2"])], ⟨0, 9⟩⟩,
      .constant " Hero.Foo"]) := by cbv
  have hb : p.build .number "Random(6)" = .ok (.node .number [call ⟨0, 9⟩]) := by cbv
  exact ⟨by decide, ha, hb, build_append_operator (by decide) (by decide) (by decide) ha hb⟩

end SceneExpr.Grammar.Number
