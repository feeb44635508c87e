import SceneExpr.Grammar.Basic
import SceneExpr.Proofs.CallSite.Place
import SceneExpr.Proofs.Grammar.Number.Coverage
import SceneExpr.Proofs.Grammar.Text.Joined

namespace SceneExpr

/-- What an item of a scan of the text is read from. -/
inductive Parser.Reads (p : Parser) (kind : ValueKind) (text : List Char) : Item → Prop where
  | constant (t : String) : Reads p kind text (.constant t)
  | literal {opened : Nat} {after raw past : List Char} : kind = .text →
      RestAt text opened ('"' :: after) → Literal.cut? after = some (raw, past) →
      Reads p kind text
        (.literal (String.ofList (Literal.unescape raw)) ⟨opened, opened + width raw + 2⟩)
  | call {cursor : Nat} {rest : List Char} {cut : MarkedCut} {site : CallSite} {r : Resolution}
      {c : Call Origin} {list : ArgumentList} : RestAt text cursor rest →
      nextMark? kind rest = some cut → cut.mark ≠ .quote →
      CallSite.read cursor cut = .ok site →
      site.isWellFormed = true → Resolution.find p.catalog p.scene kind site = .ok r →
      site.plan r = .ok (c, list) → Reads p kind text (.call c r.signature)

/-- The items are read from the text, and the error is a slice of it. -/
structure Scan.ReadFrom (p : Parser) (kind : ValueKind) (text : List Char) (s : Scan) : Prop where
  reads : ∀ i ∈ s.items, p.Reads kind text i
  slice : ∀ e, s.error = some e → ∃ piece, e.span.slice? text = some piece

namespace Scan.ReadFrom

variable {p : Parser} {kind : ValueKind} {text : List Char} {s : Scan}

theorem finished : ReadFrom p kind text .finished where
  reads := by simp [Scan.finished]
  slice := by simp [Scan.finished]

theorem stopped {e : ParseError} (h : ∃ piece, e.span.slice? text = some piece) :
    ReadFrom p kind text (.stopped e) where
  reads := by simp [Scan.stopped]
  slice := by simpa [Scan.stopped] using h

theorem cons {i : Item} (hi : p.Reads kind text i) (h : ReadFrom p kind text s) :
    ReadFrom p kind text (.cons i s) where
  reads := by
    intro j hj
    rcases List.mem_cons.1 hj with rfl | hj
    · exact hi
    · exact h.reads j hj
  slice := h.slice

theorem constant (t : List Char) (h : ReadFrom p kind text s) :
    ReadFrom p kind text (.constant t s) := by
  unfold Scan.constant
  split
  · exact h
  · exact .cons (.constant _) h

end Scan.ReadFrom

namespace Grammar.Number

variable {p : Parser} {cursor : Nat} {rest text : List Char}

theorem slice?_of_step_fail {e : ParseError} (hrest : RestAt text cursor rest)
    (h : step p cursor rest = .fail e) : ∃ piece, e.span.slice? text = some piece := by
  have hdoes := does_step p cursor rest
  rw [h] at hdoes
  cases hdoes with
  | unread hcut hread =>
    rw [← nextMark?_eq hcut] at hrest
    exact ⟨['('], CallSite.slice?_of_read_error (mark_ne_quote hcut) hrest hread⟩
  | @refused cut site _ hcut hread hr he =>
    unfold strictError? at he
    split at he
    · obtain rfl := Option.some.inj he
      exact ⟨site.written, (layout_of_cut hcut hread).nameSpan_slice? hrest⟩
    · simp at he

theorem slice?_of_step_unplanned {lead : List Char} {e : ParseError} {signature : Signature}
    (hrest : RestAt text cursor rest) (h : step p cursor rest = .found lead (.error e) signature) :
    ∃ piece, e.span.slice? text = some piece := by
  have hdoes := does_step p cursor rest
  rw [h] at hdoes
  cases hdoes with
  | found hcut hread hr hplan =>
    exact CallSite.within_of_plan_error (layout_of_cut hcut hread) hrest hplan

theorem reads_of_step_call {lead : List Char} {c : Call Origin} {list : ArgumentList}
    {signature : Signature} (hrest : RestAt text cursor rest)
    (h : step p cursor rest = .found lead (.ok (c, list)) signature) :
    p.Reads .number text (.call c signature) := by
  have hdoes := does_step p cursor rest
  rw [h] at hdoes
  cases hdoes with
  | @found cut site r _ hcut hread hr hplan =>
    unfold resolve? at hr
    split at hr
    next hwell =>
      cases hfind : Resolution.find p.catalog p.scene .number site with
      | ok r' =>
        rw [hfind] at hr
        obtain rfl := Option.some.inj hr
        exact .call hrest hcut (mark_ne_quote hcut) hread hwell hfind hplan
      | error why =>
        rw [hfind] at hr
        cases hr
    next => simp at hr

theorem readFrom_scanFrom (p : Parser) (pending : List Char) (hrest : RestAt text cursor rest) :
    (scanFrom p cursor pending rest).ReadFrom p .number text := by
  induction cursor, pending, rest using scan_induction (p := p) with
  | finish cursor pending rest h =>
    rw [scanFrom_of_finish pending h]
    exact .constant _ .finished
  | fail cursor pending rest e h =>
    rw [scanFrom_of_fail pending h]
    exact .stopped (slice?_of_step_fail hrest h)
  | pass cursor pending rest skipped past h ih =>
    rw [scanFrom_of_pass pending h]
    rw [← append_of_step_pass h] at hrest
    exact ih hrest.advance
  | unplanned cursor pending rest lead e signature h =>
    rw [scanFrom_of_unplanned pending h]
    exact .constant _ (.stopped (slice?_of_step_unplanned hrest h))
  | call cursor pending rest lead c list signature h ih =>
    rw [scanFrom_of_call pending h]
    have hreads := reads_of_step_call hrest h
    obtain ⟨body, hbody, hclose, -⟩ := body_of_step_call h
    rw [hbody] at hrest
    have hpast := hrest.advance
    rw [width_append, ← Nat.add_assoc, ← hclose] at hpast
    exact .constant _ (.cons hreads (ih hpast))

end Grammar.Number

namespace Grammar.Text

variable {p : Parser} {cursor : Nat} {rest text : List Char}

theorem exists_append_unexpectedRun (cs : List Char) : ∃ ds, unexpectedRun cs ++ ds = cs := by
  cases cs with
  | nil => exact ⟨[], rfl⟩
  | cons c cs =>
    rw [unexpectedRun]
    split
    · exact ⟨cs, rfl⟩
    · exact ⟨cs.dropWhile fun d => !endsRun d, by
        rw [List.cons_append, List.takeWhile_append_dropWhile]⟩

theorem slice?_unexpected (fault : String → Fault) {offset : Nat} {cs : List Char}
    (hrest : RestAt text offset cs) :
    ∃ piece, (unexpected fault offset cs).span.slice? text = some piece := by
  obtain ⟨ds, hds⟩ := exists_append_unexpectedRun cs
  refine ⟨unexpectedRun cs, RestAt.slice? (r := ds) ?_⟩
  rwa [hds]

theorem restAt_of_misplaced? {plusAllowed : Bool} {offset : Nat} {cs past : List Char}
    {m : Nat × List Char} (hrest : RestAt text offset (cs ++ past))
    (h : misplaced? plusAllowed offset cs = some m) : RestAt text m.1 (m.2 ++ past) := by
  induction cs generalizing offset with
  | nil => simp [misplaced?] at h
  | cons c cs ih =>
    rw [misplaced?] at h
    split at h
    · exact ih hrest.advance_cons h
    · obtain rfl := Option.some.inj h
      exact hrest

theorem restAt_of_mem_pluses {offset n : Nat} {cs past : List Char}
    (hrest : RestAt text offset (cs ++ past)) (h : n ∈ pluses offset cs) :
    ∃ more, RestAt text n ('+' :: more) := by
  induction cs generalizing offset with
  | nil => simp [pluses] at h
  | cons c cs ih =>
    rw [pluses] at h
    split at h
    next hc =>
      rcases List.mem_cons.1 h with rfl | h
      · subst hc
        exact ⟨cs ++ past, hrest⟩
      · exact ih hrest.advance_cons h
    next => exact ih hrest.advance_cons h

theorem slice?_of_gapError? {started : Bool} {offset : Nat} {gap past : List Char} {e : ParseError}
    (hrest : RestAt text offset (gap ++ past)) (h : gapError? started offset gap past = some e) :
    ∃ piece, e.span.slice? text = some piece := by
  unfold gapError? at h
  split at h
  next found cs hm =>
    obtain rfl := Option.some.inj h
    exact slice?_unexpected .unexpectedText (restAt_of_misplaced? hrest hm)
  next =>
    split at h
    · split at h
      · obtain rfl := Option.some.inj h
        exact ⟨[], RestAt.slice? (l := []) hrest.advance⟩
      · simp at h
      next first more _ hp =>
        obtain rfl := Option.some.inj h
        have hfirst : first ∈ pluses offset gap := by
          rw [hp]
          exact List.mem_cons_self
        obtain ⟨more, hmore⟩ := restAt_of_mem_pluses hrest hfirst
        exact ⟨['+'], RestAt.slice? (l := ['+']) hmore⟩
    · simp at h

theorem slice?_of_trailingError? {offset : Nat} {cs : List Char} {e : ParseError}
    (hrest : RestAt text offset cs) (h : trailingError? offset cs = some e) :
    ∃ piece, e.span.slice? text = some piece := by
  obtain ⟨m, hm, rfl⟩ := Option.map_eq_some_iff.1 h
  rw [← List.append_nil cs] at hrest
  have hmisplaced := restAt_of_misplaced? hrest hm
  rw [List.append_nil] at hmisplaced
  exact slice?_unexpected .trailingText hmisplaced

variable {cut : MarkedCut}

theorem slice?_of_resolve_error {site : CallSite} {e : ParseError} (hs : site.Layout cursor rest)
    (hrest : RestAt text cursor rest) (h : resolve p site = .error e) :
    ∃ piece, e.span.slice? text = some piece := by
  have hname : ∀ why : Unresolved, ∃ piece,
      ((site.unknown why).error site.nameSpan).span.slice? text = some piece :=
    fun _ => ⟨site.written, hs.nameSpan_slice? hrest⟩
  unfold resolve at h
  split at h
  · cases hfind : Resolution.find p.catalog p.scene .text site with
    | error why =>
      rw [hfind] at h
      obtain rfl := Except.error.inj h
      exact hname why
    | ok r =>
      rw [hfind] at h
      cases h
  · obtain rfl := Except.error.inj h
    exact hname .notFound

/-- A token that cannot be read is blamed on a slice of the text. -/
theorem slice?_of_readToken_error {e : ParseError}
    (hrest : RestAt text cursor (cut.before ++ cut.mark.char :: cut.after))
    (h : readToken p cursor cut = .error e) : ∃ piece, e.span.slice? text = some piece := by
  unfold readToken at h
  split at h
  next hquote =>
    unfold readLiteral at h
    split at h
    · obtain rfl := Except.error.inj h
      have hopened := hrest.advance
      rw [hquote, Mark.char] at hopened
      have hquoteSize : Char.utf8Size '"' = 1 := rfl
      refine ⟨'"' :: cut.after, ?_⟩
      have hslice := RestAt.slice? (l := '"' :: cut.after) (r := []) (by simpa using hopened)
      rwa [width_cons, hquoteSize, ← Nat.add_assoc] at hslice
    · simp at h
  next hquote =>
    unfold readCall at h
    split at h
    next hsite =>
      obtain rfl := Except.error.inj h
      exact ⟨['('], CallSite.slice?_of_read_error hquote hrest hsite⟩
    next site hsite =>
      have hlayout := CallSite.layout_of_read hquote hsite
      split at h
      next hr =>
        obtain rfl := Except.error.inj h
        exact slice?_of_resolve_error hlayout hrest hr
      next r hr =>
        split at h
        next hplan =>
          obtain rfl := Except.error.inj h
          exact CallSite.within_of_plan_error hlayout hrest hplan
        · simp at h

theorem reads_of_readToken {t : Token} (hrest : RestAt text cursor rest)
    (hcut : nextMark? .text rest = some cut) (h : readToken p cursor cut = .ok t) :
    p.Reads .text text t.item := by
  unfold readToken at h
  split at h
  next hquote =>
    obtain ⟨raw, past, hraw, rfl⟩ := exists_of_readLiteral h
    rw [← nextMark?_eq hcut, hquote] at hrest
    exact .literal rfl hrest.advance hraw
  next hquote =>
    obtain ⟨site, r, c, list, hsite, hr, hplan, rfl⟩ := exists_of_readCall h
    unfold resolve at hr
    split at hr
    next hwell =>
      cases hfind : Resolution.find p.catalog p.scene .text site with
      | ok r' =>
        rw [hfind] at hr
        obtain rfl := Except.ok.inj hr
        exact .call hrest hcut hquote hsite hwell hfind hplan
      | error why =>
        rw [hfind] at hr
        cases hr
    next => simp at hr

theorem readFrom_afterGap {started : Bool} {gap : List Char} {s : Scan}
    (h : s.ReadFrom p .text text) : (afterGap started gap s).ReadFrom p .text text := by
  unfold afterGap
  split
  · exact .constant gap h
  · exact h

theorem readFrom_scanFrom (p : Parser) (started : Bool) (hrest : RestAt text cursor rest) :
    (scanFrom p cursor started rest).ReadFrom p .text text := by
  have hwhole {cursor : Nat} {rest : List Char} {cut : MarkedCut} (hrest : RestAt text cursor rest)
      (hcut : nextMark? .text rest = some cut) :
      RestAt text cursor (gapOf cut ++ tokenText cut) := by
    rwa [gapOf_append_tokenText, nextMark?_eq hcut]
  induction cursor, started, rest using scan_induction (p := p) with
  | finish cursor started rest hcut =>
    rw [scanFrom_of_finish hcut]
    exact ⟨by simp, fun e he => slice?_of_trailingError? hrest he⟩
  | gap cursor started rest cut e hcut hgap =>
    rw [scanFrom_of_gap hcut hgap]
    exact .stopped (slice?_of_gapError? (hwhole hrest hcut) hgap)
  | fail cursor started rest cut e hcut hgap hread =>
    rw [scanFrom_of_fail hcut hgap hread]
    rw [← nextMark?_eq hcut] at hrest
    exact readFrom_afterGap (.stopped (slice?_of_readToken_error hrest hread))
  | token cursor started rest cut t hcut hgap hread ih =>
    rw [scanFrom_of_token hcut hgap hread]
    obtain ⟨body, hbody, hstop, -⟩ := (layout_of_readToken hread).exists_body
    have hpast := (hwhole hrest hcut).advance
    rw [hbody] at hpast
    have hpast := hpast.advance
    rw [← hstop] at hpast
    exact readFrom_afterGap (.cons (reads_of_readToken hrest hcut hread) (ih hpast))

end Grammar.Text

/-- Whatever a scan holds is read from the text, and its error is a slice of the text. -/
theorem Parser.readFrom_scan (p : Parser) (kind : ValueKind) (text : String) :
    (p.scan kind text).ReadFrom p kind text.toList := by
  have hwhole := RestAt.whole text.toList
  cases kind with
  | number => exact Grammar.Number.readFrom_scanFrom p [] hwhole
  | text =>
    change (Grammar.Text.scan p text.toList).ReadFrom p .text text.toList
    unfold Grammar.Text.scan
    split
    · exact .stopped ⟨[], RestAt.slice? (l := []) hwhole⟩
    · exact Grammar.Text.readFrom_scanFrom p false hwhole

end SceneExpr
