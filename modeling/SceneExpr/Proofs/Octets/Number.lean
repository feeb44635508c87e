import SceneExpr.Proofs.CallSite.Place
import SceneExpr.Proofs.Grammar.Number.Step
import SceneExpr.Proofs.Octets.Calls

namespace SceneExpr.Octets

section Machine

variable (p : Parser) (nested : ValueKind → String → Outcome Tree) (text : List Char)

/-- Under the strict policy a name without owner stands for something or is built in. -/
def checkBuiltin (s : Site) : Outcome Unit :=
  if p.options.unknownFunctions = .builtinsOnly ∧ s.owner = none ∧
      !Grammar.Builtin.isBuiltin (String.ofList s.member) then
    unknown text s .notFound
  else return ()

inductive Turn where
  | done (fragments : List Fragment)
  | on (fragments : List Fragment) (cursor start : Nat)

/-- Reads on from a cursor to behind the next mark or call. Constant text from `start` on has not
been taken in yet. -/
def turnNumber (fragments : List Fragment) (cursor start : Nat) : Outcome Turn :=
  match findMark? text cursor .number with
  | none => do
    let fragments ← flush text fragments start (octets text).length
    return .done fragments
  | some (offset, mark) => do
    let site ← callSite text cursor offset mark
    if site.candidate.isWellFormed then
      match Resolution.find p.catalog p.scene .number site.candidate with
      | .ok r =>
        let fragments ← flush text fragments start site.start
        let (fragments, stop) ← emitCall nested text fragments site r
        return .on fragments stop stop
      | .error _ =>
        checkBuiltin p text site
        let stop := if mark = .paren then offset + 1 else site.memberSpan.stop
        -- What is passed over is cut out for the trace.
        let _ ← part text site.start stop
        return .on fragments stop start
    else
      checkBuiltin p text site
      return .on fragments (offset + 1) start

def runNumber : (fuel : Nat) → (fragments : List Fragment) → (cursor start : Nat) →
    Outcome (List Fragment)
  | 0, _, _, _ => .panic .endless
  | fuel + 1, fragments, cursor, start => do
    match ← turnNumber p nested text fragments cursor start with
    | .done fragments => return fragments
    | .on fragments cursor start => runNumber fuel fragments cursor start

end Machine

open Grammar.Number

variable {p : Parser} {nested : ValueKind → String → Except ParseError Tree} {text : List Char}
  {cursor : Nat} {cut : MarkedCut} {site : CallSite}

theorem checkBuiltin_eq {rest : List Char} (h : RestAt text site.start (site.written ++ rest)) :
    checkBuiltin p text (Site.of site) =
      match strictError? p site with
      | some e => .error e
      | none => .ok () := by
  change (if p.options.unknownFunctions = .builtinsOnly ∧ site.owner = none ∧
      !Grammar.Builtin.isBuiltin (String.ofList site.member) then _ else _) = _
  rw [strictError?]
  by_cases hstrict : p.options.unknownFunctions = .builtinsOnly ∧ site.owner = none ∧
      !Grammar.Builtin.isBuiltin (String.ofList site.member)
  · rw [if_pos hstrict, if_pos hstrict]
    exact unknown_eq h .notFound
  · rw [if_neg hstrict, if_neg hstrict]
    rfl

/-- Where the text ends that is passed over with an unresolved name. -/
theorem stop_passed (hmark : cut.mark ≠ .quote) (h : CallSite.read cursor cut = .ok site) :
    (if cut.mark = .paren then cursor + width cut.before + 1 else site.memberSpan.stop) =
      site.start + width site.passed := by
  unfold CallSite.read at h
  cases hcut : cut.mark with
  | dot =>
    rw [hcut] at h
    obtain ⟨found, rfl, -⟩ := CallSite.exists_of_atDot h
    rw [if_neg (by simp), CallSite.memberSpan_stop]
    rfl
  | paren =>
    have hparen : Char.utf8Size '(' = 1 := rfl
    rw [hcut] at h
    rw [CallSite.atParen_eq] at h
    obtain ⟨list, -, rfl⟩ := exists_of_map_ok h
    rw [if_pos rfl, ← add_width_lastIdentifier cursor cut.before]
    simp [CallSite.withList, CallSite.passed, hparen, Nat.add_assoc]
  | quote => exact absurd hcut hmark

theorem find_eq_error_of_resolve? (hwell : site.isWellFormed = true) (hr : resolve? p site = none) :
    ∃ why, Resolution.find p.catalog p.scene .number site = .error why := by
  rw [resolve?, if_pos hwell] at hr
  cases hfind : Resolution.find p.catalog p.scene .number site with
  | error why => exact ⟨why, rfl⟩
  | ok r =>
    rw [hfind] at hr
    cases hr

theorem find_eq_ok_of_resolve? {r : Resolution} (hr : resolve? p site = some r) :
    site.isWellFormed = true ∧ Resolution.find p.catalog p.scene .number site = .ok r := by
  unfold resolve? at hr
  split at hr
  next hwell =>
    cases hfind : Resolution.find p.catalog p.scene .number site with
    | error why =>
      rw [hfind] at hr
      cases hr
    | ok r' =>
      rw [hfind] at hr
      obtain rfl := Option.some.inj hr
      exact ⟨hwell, rfl⟩
  next => simp at hr

/-- A turn does one step of the scan. -/
theorem turnNumber_eq {start : Nat} {pending rest : List Char}
    (hstart : RestAt text start (pending ++ rest)) (hcursor : start + width pending = cursor)
    (fragments : List Fragment) :
    turnNumber p (checked nested) text fragments cursor start =
      match step p cursor rest with
      | .finish => .ok (.done (withConstant fragments (pending ++ rest)))
      | .fail e => .error e
      | .pass skipped _ => .ok (.on fragments (cursor + width skipped) start)
      | .found _ (.error e) _ => .error e
      | .found lead (.ok (c, list)) signature =>
        .ofExcept ((Item.built nested (.call c signature)).map fun f =>
          .on (withConstant fragments (pending ++ lead) ++ [f]) (list.closeAt + 1)
            (list.closeAt + 1)) := by
  have hrest := hstart.advance
  rw [hcursor] at hrest
  have hsite {cut : MarkedCut} (hcut : nextMark? .number rest = some cut) :
      callSite text cursor (cursor + width cut.before) cut.mark =
        .ofExcept ((CallSite.read cursor cut).map Site.of) := by
    apply callSite_eq (mark_ne_quote hcut)
    rwa [nextMark?_eq hcut]
  rw [turnNumber, findMark?_eq hrest]
  have hdoes := does_step p cursor rest
  generalize step p cursor rest = st at hdoes
  cases hdoes with
  | finish hcut =>
    have hflush : flush text fragments start (octets text).length =
        .ok (withConstant fragments (pending ++ rest)) := by
      rw [← List.append_nil (pending ++ rest)] at hstart
      rw [length_octets, hstart.width_eq, List.append_nil]
      exact flush_eq hstart
    rw [hcut, Option.map_none]
    dsimp only
    rw [hflush]
    rfl
  | unread hcut hread =>
    rw [hcut, Option.map_some]
    dsimp only
    rw [hsite hcut, hread]
    rfl
  | @refused cut site e hcut hread hr he =>
    obtain ⟨past, hwritten⟩ := (layout_of_cut hcut hread).restAt_written hrest
    rw [hcut, Option.map_some]
    dsimp only
    rw [hsite hcut, hread, Outcome.ofExcept_map_ok, Outcome.ok_bind, Site.isWellFormed_candidate,
      Site.find_candidate, checkBuiltin_eq hwritten, he]
    split
    next hwell =>
      obtain ⟨why, hfind⟩ := find_eq_error_of_resolve? hwell hr
      rw [hfind]
      rfl
    next => rfl
  | @pass cut site skipped past hcut hread hr he hpass =>
    have hlayout := layout_of_cut hcut hread
    obtain ⟨past', hwritten⟩ := hlayout.restAt_written hrest
    rw [hcut, Option.map_some]
    dsimp only
    rw [hsite hcut, hread, Outcome.ofExcept_map_ok, Outcome.ok_bind, Site.isWellFormed_candidate,
      Site.find_candidate, checkBuiltin_eq hwritten, he]
    unfold passOver at hpass
    split
    next hwell =>
      obtain ⟨why, hfind⟩ := find_eq_error_of_resolve? hwell hr
      rw [if_pos hwell] at hpass
      obtain ⟨rfl, -⟩ := Prod.mk.inj hpass
      have hstop := stop_passed (mark_ne_quote hcut) hread
      change (if cut.mark =
        .paren then cursor + width cut.before + 1 else (Site.of site).memberSpan.stop) =
        _ at hstop
      rw [hfind]
      dsimp only
      rw [Outcome.ok_bind, hstop, Site.of]
      dsimp only
      rw [part_of_restAt (hlayout.restAt_passed hrest), Outcome.ok_bind, width_append,
        ← Nat.add_assoc, ← hlayout.start_eq]
      rfl
    next hwell =>
      rw [if_neg hwell] at hpass
      obtain ⟨rfl, -⟩ := Prod.mk.inj hpass
      have hsize := utf8Size_of_lt (cut.mark.char_lt)
      rw [width_append, width_cons, width_nil, hsize, ← Nat.add_assoc]
      rfl
  | @found cut site r planned hcut hread hr hplan =>
    have hlayout := layout_of_cut hcut hread
    obtain ⟨hwell, hfind⟩ := find_eq_ok_of_resolve? hr
    have hlead : RestAt text start ((pending ++ site.lead) ++ (site.passed ++ site.rest)) := by
      rwa [List.append_assoc, ← List.append_assoc site.lead, ← hlayout.text_eq]
    have hflush : flush text fragments start site.start =
        .ok (withConstant fragments (pending ++ site.lead)) := by
      rw [hlayout.start_eq, ← hcursor, Nat.add_assoc, ← width_append]
      exact flush_eq hlead
    rw [hcut, Option.map_some]
    dsimp only
    rw [hsite hcut, hread, Outcome.ofExcept_map_ok, Outcome.ok_bind, Site.isWellFormed_candidate,
      Site.find_candidate, if_pos hwell, hfind]
    dsimp only
    rw [Site.start_of, hflush, Outcome.ok_bind, emitCall_eq hlayout hrest, hplan]
    cases planned with
    | error e => rfl
    | ok planned =>
      dsimp only
      cases Item.built nested (.call planned.1 r.signature) <;> rfl

/-- The loop builds what the scan holds. -/
theorem runNumber_eq {fuel start : Nat} {pending rest : List Char} (hfuel : rest.length < fuel)
    (hstart : RestAt text start (pending ++ rest)) (hcursor : start + width pending = cursor)
    (fragments : List Fragment) :
    runNumber p (checked nested) text fuel fragments cursor start =
      .ofExcept ((scanFrom p cursor pending rest).builtAfter nested fragments) := by
  induction fuel generalizing cursor start pending rest fragments with
  | zero => exact absurd hfuel (Nat.not_lt_zero _)
  | succ fuel ih =>
    rw [runNumber, turnNumber_eq hstart hcursor]
    match hstep : step p cursor rest with
    | .finish =>
      rw [scanFrom_of_finish pending hstep, Scan.builtAfter_constant, Scan.builtAfter_finished]
      rfl
    | .fail e =>
      rw [scanFrom_of_fail pending hstep]
      rfl
    | .pass skipped past =>
      have hshorter := length_lt_of_step_pass hstep
      rw [scanFrom_of_pass pending hstep]
      apply ih (by omega)
      · rwa [List.append_assoc, append_of_step_pass hstep]
      · rw [width_append, ← Nat.add_assoc, hcursor]
    | .found lead (.error e) signature =>
      rw [scanFrom_of_unplanned pending hstep, Scan.builtAfter_constant, Scan.builtAfter_stopped]
      rfl
    | .found lead (.ok (c, list)) signature =>
      have hshorter := length_lt_of_step_call hstep
      obtain ⟨body, hbody, hclose, -⟩ := body_of_step_call hstep
      have hpast := hstart.advance
      rw [hcursor, hbody] at hpast
      have hpast := hpast.advance
      rw [width_append, ← Nat.add_assoc, ← hclose] at hpast
      rw [scanFrom_of_call pending hstep, Scan.builtAfter_constant, Scan.builtAfter_cons]
      dsimp only
      cases Item.built nested (.call c signature) with
      | error e => rfl
      | ok f =>
        have hturns := Nat.lt_of_lt_of_le hshorter (Nat.le_of_lt_succ hfuel)
        rw [← List.nil_append list.rest] at hpast
        exact ih hturns hpast rfl _

end SceneExpr.Octets
