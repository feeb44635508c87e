import SceneExpr.Grammar.Number
import SceneExpr.Proofs.CallSite.Layout

namespace SceneExpr.Grammar.Number

/-- What the text from a cursor on makes a scan do. The call of a function that is found may still
fail to be planned. -/
inductive Step where
  | finish
  | fail (e : ParseError)
  | pass (skipped rest : List Char)
  | found (lead : List Char) (planned : Except ParseError (Call Origin × ArgumentList))
    (signature : Signature)

def step (p : Parser) (cursor : Nat) (rest : List Char) : Step :=
  match nextMark? .number rest with
  | none => .finish
  | some cut =>
    match CallSite.read cursor cut with
    | .error e => .fail e
    | .ok site =>
      match resolve? p site with
      | some r => .found site.lead (site.plan r) r.signature
      | none =>
        match strictError? p site with
        | some e => .fail e
        | none => .pass (passOver cut site).1 (passOver cut site).2

/-- A scan does its step and goes on. -/
theorem scanFrom_eq (p : Parser) (cursor : Nat) (pending rest : List Char) :
    scanFrom p cursor pending rest =
      match step p cursor rest with
      | .finish => .constant (pending ++ rest) .finished
      | .fail e => .stopped e
      | .pass skipped past => scanFrom p (cursor + width skipped) (pending ++ skipped) past
      | .found lead (.error e) _ => .constant (pending ++ lead) (.stopped e)
      | .found lead (.ok (call, list)) signature =>
        .constant (pending ++ lead)
          (.cons (.call call signature) (scanFrom p (list.closeAt + 1) [] list.rest)) := by
  rw [scanFrom]
  split
  next hcut => simp only [step, hcut]
  next cut hcut =>
    split
    next e hsite => simp only [step, hcut, hsite]
    next site hsite =>
      split
      next hr =>
        split
        next e he => simp only [step, hcut, hsite, hr, he]
        next he => simp only [step, hcut, hsite, hr, he]
      next r hr =>
        split
        next e hplan => simp only [step, hcut, hsite, hr, hplan]
        next call list hplan => simp only [step, hcut, hsite, hr, hplan]

section Equations

variable {p : Parser} {cursor : Nat} {rest : List Char} (pending : List Char)

theorem scanFrom_of_finish (h : step p cursor rest = .finish) :
    scanFrom p cursor pending rest = .constant (pending ++ rest) .finished := by
  rw [scanFrom_eq, h]

theorem scanFrom_of_fail {e : ParseError} (h : step p cursor rest = .fail e) :
    scanFrom p cursor pending rest = .stopped e := by
  rw [scanFrom_eq, h]

theorem scanFrom_of_pass {skipped past : List Char} (h : step p cursor rest = .pass skipped past) :
    scanFrom p cursor pending rest =
      scanFrom p (cursor + width skipped) (pending ++ skipped) past := by
  rw [scanFrom_eq, h]

theorem scanFrom_of_unplanned {lead : List Char} {e : ParseError} {signature : Signature}
    (h : step p cursor rest = .found lead (.error e) signature) :
    scanFrom p cursor pending rest = .constant (pending ++ lead) (.stopped e) := by
  rw [scanFrom_eq, h]

theorem scanFrom_of_call {lead : List Char} {call : Call Origin} {list : ArgumentList}
    {signature : Signature} (h : step p cursor rest = .found lead (.ok (call, list)) signature) :
    scanFrom p cursor pending rest =
      .constant (pending ++ lead)
        (.cons (.call call signature) (scanFrom p (list.closeAt + 1) [] list.rest)) := by
  rw [scanFrom_eq, h]

end Equations

/-- All that a step can do, with what makes it do so. -/
inductive Does (p : Parser) (cursor : Nat) (rest : List Char) : Step → Prop where
  | finish : nextMark? .number rest = none → Does p cursor rest .finish
  | unread {cut : MarkedCut} {e : ParseError} : nextMark? .number rest = some cut →
      CallSite.read cursor cut = .error e → Does p cursor rest (.fail e)
  | refused {cut : MarkedCut} {site : CallSite} {e : ParseError} :
      nextMark? .number rest = some cut → CallSite.read cursor cut = .ok site →
      resolve? p site = none → strictError? p site = some e → Does p cursor rest (.fail e)
  | pass {cut : MarkedCut} {site : CallSite} {skipped past : List Char} :
      nextMark? .number rest = some cut → CallSite.read cursor cut = .ok site →
      resolve? p site = none → strictError? p site = none →
      passOver cut site = (skipped, past) →
      Does p cursor rest (.pass skipped past)
  | found {cut : MarkedCut} {site : CallSite} {r : Resolution}
      {planned : Except ParseError (Call Origin × ArgumentList)} :
      nextMark? .number rest = some cut → CallSite.read cursor cut = .ok site →
      resolve? p site = some r → site.plan r = planned →
      Does p cursor rest (.found site.lead planned r.signature)

theorem does_step (p : Parser) (cursor : Nat) (rest : List Char) :
    Does p cursor rest (step p cursor rest) := by
  unfold step
  split
  next hcut => exact .finish hcut
  next cut hcut =>
    split
    next hsite => exact .unread hcut hsite
    next site hsite =>
      split
      next hr => exact .found hcut hsite hr rfl
      next hr =>
        split
        next he => exact .refused hcut hsite hr he
        next he => exact .pass hcut hsite hr he rfl

section Converse

variable {p : Parser} {cursor : Nat} {rest : List Char} {cut : MarkedCut} {site : CallSite}

theorem step_of_passed {skipped past : List Char} (hcut : nextMark? .number rest = some cut)
    (hsite : CallSite.read cursor cut = .ok site) (hr : resolve? p site = none)
    (he : strictError? p site = none) (hpass : passOver cut site = (skipped, past)) :
    step p cursor rest = .pass skipped past := by
  unfold step
  simp only [hcut, hsite, hr, he, hpass]

theorem step_of_found {r : Resolution} (hcut : nextMark? .number rest = some cut)
    (hsite : CallSite.read cursor cut = .ok site) (hr : resolve? p site = some r) :
    step p cursor rest = .found site.lead (site.plan r) r.signature := by
  unfold step
  simp only [hcut, hsite, hr]

theorem step_of_unread {e : ParseError} (hcut : nextMark? .number rest = some cut)
    (hsite : CallSite.read cursor cut = .error e) : step p cursor rest = .fail e := by
  unfold step
  simp only [hcut, hsite]

end Converse

theorem mark_ne_quote {cs : List Char} {cut : MarkedCut} (h : nextMark? .number cs = some cut) :
    cut.mark ≠ .quote := by
  obtain ⟨-, hmark, -⟩ := nextMark?_eq_some_iff.1 h
  intro hquote
  rw [hquote] at hmark
  exact absurd hmark (by decide)

theorem layout_of_cut {cursor : Nat} {rest : List Char} {cut : MarkedCut} {site : CallSite}
    (hcut : nextMark? .number rest = some cut) (hsite : CallSite.read cursor cut = .ok site) :
    site.Layout cursor rest := by
  rw [← nextMark?_eq hcut]
  exact CallSite.layout_of_read (mark_ne_quote hcut) hsite

section Steps

variable {p : Parser} {cursor : Nat} {rest : List Char}

theorem nextMark?_of_step_finish (h : step p cursor rest = .finish) :
    nextMark? .number rest = none := by
  have hdoes := does_step p cursor rest
  rw [h] at hdoes
  cases hdoes with
  | finish hmark => exact hmark

theorem start_of_step_fail {e : ParseError} (h : step p cursor rest = .fail e) :
    cursor ≤ e.span.start := by
  have hdoes := does_step p cursor rest
  rw [h] at hdoes
  cases hdoes with
  | unread hcut hread =>
    exact Nat.le_trans (Nat.le_add_right _ _) (CallSite.start_of_read_error hread)
  | @refused cut site _ hcut hread hr he =>
    have hstart := (layout_of_cut hcut hread).start_eq
    unfold strictError? at he
    split at he
    · obtain rfl := Option.some.inj he
      change cursor ≤ site.start
      omega
    · simp at he

/-- Nothing is lost when text is passed over. -/
theorem append_of_step_pass {skipped past : List Char}
    (h : step p cursor rest = .pass skipped past) :
    skipped ++ past = rest := by
  have hdoes := does_step p cursor rest
  rw [h] at hdoes
  cases hdoes with
  | @pass cut site _ _ hcut hread hr he hpass =>
    unfold passOver at hpass
    split at hpass
    · obtain ⟨rfl, rfl⟩ := Prod.mk.inj hpass
      rw [← (layout_of_cut hcut hread).text_eq]
    · obtain ⟨rfl, rfl⟩ := Prod.mk.inj hpass
      rw [List.append_assoc, List.singleton_append, nextMark?_eq hcut]

theorem length_lt_of_step_pass {skipped past : List Char}
    (h : step p cursor rest = .pass skipped past) : past.length < rest.length := by
  have hdoes := does_step p cursor rest
  rw [h] at hdoes
  cases hdoes with
  | @pass cut site _ _ hcut hread hr he hpass =>
    have hle := passOver_length_le hread
    rw [hpass] at hle
    exact Nat.lt_of_le_of_lt hle (after_length_lt_of_nextMark? hcut)

/-- A call that cannot be planned fails behind its lead. -/
theorem lead_of_step_unplanned {lead : List Char} {e : ParseError} {signature : Signature}
    (h : step p cursor rest = .found lead (.error e) signature) :
    ∃ past, rest = lead ++ past ∧ cursor + width lead ≤ e.span.start := by
  have hdoes := does_step p cursor rest
  rw [h] at hdoes
  cases hdoes with
  | @found cut site r _ hcut hread hr hplan =>
    have hlayout := layout_of_cut hcut hread
    refine ⟨site.passed ++ site.rest, ?_, ?_⟩
    · rw [← List.append_assoc, ← hlayout.text_eq]
    · rw [← hlayout.start_eq]
      exact CallSite.start_le_of_plan_error hlayout hplan

/-- A call stands behind its lead, and the scan goes on where it ends. -/
theorem body_of_step_call {lead : List Char} {call : Call Origin} {list : ArgumentList}
    {signature : Signature} (h : step p cursor rest = .found lead (.ok (call, list)) signature) :
    ∃ body, rest = lead ++ body ++ list.rest ∧
      list.closeAt + 1 = cursor + width lead + width body ∧
      call.span = ⟨cursor + width lead, cursor + width lead + width body⟩ ∧
      ∀ e, call.Raises e → cursor + width lead ≤ e.span.start := by
  have hdoes := does_step p cursor rest
  rw [h] at hdoes
  cases hdoes with
  | @found cut site r _ hcut hread hr hplan =>
    have hlayout := layout_of_cut hcut hread
    obtain ⟨body, hrest, hclose, -, -⟩ :=
      hlayout.exists_body (CallSite.arguments_of_plan hplan)
    refine ⟨body, hrest, by rw [hclose, hlayout.start_eq], ?_, ?_⟩
    · rw [CallSite.span_of_plan hplan, hclose, hlayout.start_eq]
    · intro e he
      rw [← hlayout.start_eq]
      exact CallSite.start_le_of_plan_raises hlayout hplan he

theorem length_lt_of_step_call {lead : List Char} {call : Call Origin} {list : ArgumentList}
    {signature : Signature} (h : step p cursor rest = .found lead (.ok (call, list)) signature) :
    list.rest.length < rest.length := by
  have hdoes := does_step p cursor rest
  rw [h] at hdoes
  cases hdoes with
  | @found cut site r _ hcut hread hr hplan =>
    exact Nat.lt_trans (CallSite.list_rest_length_lt hread (CallSite.arguments_of_plan hplan))
      (after_length_lt_of_nextMark? hcut)

end Steps

/-- What holds where a scan ends, and holds before a step if it holds after it, holds everywhere. -/
theorem scan_induction {p : Parser} {motive : Nat → List Char → List Char → Prop}
    (finish : ∀ cursor pending rest, step p cursor rest = .finish → motive cursor pending rest)
    (fail : ∀ cursor pending rest e, step p cursor rest = .fail e → motive cursor pending rest)
    (pass : ∀ cursor pending rest skipped past, step p cursor rest = .pass skipped past →
      motive (cursor + width skipped) (pending ++ skipped) past → motive cursor pending rest)
    (unplanned : ∀ cursor pending rest lead e signature,
      step p cursor rest = .found lead (.error e) signature → motive cursor pending rest)
    (call : ∀ cursor pending rest lead call list signature,
      step p cursor rest = .found lead (.ok (call, list)) signature →
      motive (list.closeAt + 1) [] list.rest → motive cursor pending rest)
    (cursor : Nat) (pending rest : List Char) : motive cursor pending rest := by
  match h : step p cursor rest with
  | .finish => exact finish cursor pending rest h
  | .fail e => exact fail cursor pending rest e h
  | .pass skipped past =>
    exact pass cursor pending rest skipped past h
      (scan_induction finish fail pass unplanned call _ _ past)
  | .found lead (.error e) signature => exact unplanned cursor pending rest lead e signature h
  | .found lead (.ok (c, list)) signature =>
    exact call cursor pending rest lead c list signature h
      (scan_induction finish fail pass unplanned call _ _ list.rest)
termination_by rest.length
decreasing_by
  · exact length_lt_of_step_pass h
  · exact length_lt_of_step_call h

/-- Parsers that do the same steps scan alike. -/
theorem scanFrom_congr {p p' : Parser}
    (hstep : ∀ cursor rest, step p cursor rest = step p' cursor rest) (cursor : Nat)
    (pending rest : List Char) :
    scanFrom p cursor pending rest = scanFrom p' cursor pending rest := by
  induction cursor, pending, rest using scan_induction (p := p) with
  | finish cursor pending rest h =>
    rw [scanFrom_of_finish pending h, scanFrom_of_finish pending ((hstep _ _).symm.trans h)]
  | fail cursor pending rest e h =>
    rw [scanFrom_of_fail pending h, scanFrom_of_fail pending ((hstep _ _).symm.trans h)]
  | pass cursor pending rest skipped past h ih =>
    rw [scanFrom_of_pass pending h, scanFrom_of_pass pending ((hstep _ _).symm.trans h), ih]
  | unplanned cursor pending rest lead e signature h =>
    rw [scanFrom_of_unplanned pending h, scanFrom_of_unplanned pending ((hstep _ _).symm.trans h)]
  | call cursor pending rest lead call list signature h ih =>
    rw [scanFrom_of_call pending h, scanFrom_of_call pending ((hstep _ _).symm.trans h), ih]

end SceneExpr.Grammar.Number
