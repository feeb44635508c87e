import SceneExpr.Proofs.Consumer.Watched
import SceneExpr.Proofs.Grammar.Number.Step

namespace SceneExpr.Grammar.Number

/-- The items of a scan hold what is pending and what comes next, up to the error. -/
theorem covers_scanFrom (p : Parser) {start cursor : Nat} (pending rest : List Char)
    (hstart : start + width pending = cursor) :
    ∃ front back, pending ++ rest = front ++ back ∧
      (scanFrom p cursor pending rest).Covers (· = []) start front back := by
  -- The induction is on the scan. What is pending counts as covered, from `start` to the cursor.
  induction cursor, pending, rest using scan_induction (p := p) generalizing start with
  | finish cursor pending rest h =>
    rw [scanFrom_of_finish pending h]
    exact ⟨pending ++ rest ++ [], [], by simp, .constant _ (.finished rfl)⟩
  | fail cursor pending rest e h =>
    rw [scanFrom_of_fail pending h]
    have := start_of_step_fail h
    exact ⟨[], pending ++ rest, rfl, .stopped (by omega)⟩
  | pass cursor pending rest skipped past h ih =>
    rw [scanFrom_of_pass pending h, ← append_of_step_pass h, ← List.append_assoc]
    exact ih (by rw [width_append]; omega)
  | unplanned cursor pending rest lead e signature h =>
    rw [scanFrom_of_unplanned pending h]
    obtain ⟨past, rfl, hle⟩ := lead_of_step_unplanned h
    have hle' : start + width (pending ++ lead) ≤ e.span.start := by
      rw [width_append]
      omega
    exact ⟨pending ++ lead ++ [], past, by simp, .constant _ (.stopped hle')⟩
  | call cursor pending rest lead call list signature h ih =>
    rw [scanFrom_of_call pending h]
    obtain ⟨body, hrest, hclose, hspan, -⟩ := body_of_step_call h
    have hstart' : list.closeAt + 1 + width [] = list.closeAt + 1 := rfl
    obtain ⟨front, back, hpast, hcovers⟩ := ih hstart'
    rw [List.nil_append] at hpast
    have hlead : start + width (pending ++ lead) = cursor + width lead := by
      rw [width_append, ← Nat.add_assoc, hstart]
    rw [← hlead] at hclose hspan
    refine ⟨pending ++ lead ++ (body ++ front), back, by simp [hrest, hpast], .constant _ ?_⟩
    exact .token body (congrArg Segment.token hspan) (by rwa [← hclose])

theorem separated_scanFrom (p : Parser) (cursor : Nat) (pending rest : List Char) :
    Segment.Separated ((scanFrom p cursor pending rest).items.map Item.segment) := by
  induction cursor, pending, rest using scan_induction (p := p) with
  | finish cursor pending rest h =>
    rw [scanFrom_of_finish pending h]
    exact Scan.separated_constant .nil (by simp [Scan.finished])
  | fail cursor pending rest e h =>
    rw [scanFrom_of_fail pending h]
    exact .nil
  | pass cursor pending rest skipped past h ih => rwa [scanFrom_of_pass pending h]
  | unplanned cursor pending rest lead e signature h =>
    rw [scanFrom_of_unplanned pending h]
    exact Scan.separated_constant .nil (by simp [Scan.stopped])
  | call cursor pending rest lead call list signature h ih =>
    rw [scanFrom_of_call pending h]
    apply Scan.separated_constant
    · exact ih.cons_token
    · simp [Scan.cons, Item.segment, Segment.isConstant]

/-- An argument is reported behind the start of its call. -/
theorem start_le_of_raises {p : Parser} {cursor : Nat} {pending rest : List Char}
    {c : Call Origin} {signature : Signature}
    (hmem : .call c signature ∈ (scanFrom p cursor pending rest).items) {e : ParseError}
    (he : c.Raises e) : c.span.start ≤ e.span.start := by
  induction cursor, pending, rest using scan_induction (p := p) with
  | finish cursor pending rest h =>
    rw [scanFrom_of_finish pending h, Scan.items_constant] at hmem
    split at hmem <;> simp [Scan.finished] at hmem
  | fail cursor pending rest e h =>
    rw [scanFrom_of_fail pending h] at hmem
    simp [Scan.stopped] at hmem
  | pass cursor pending rest skipped past h ih =>
    rw [scanFrom_of_pass pending h] at hmem
    exact ih hmem
  | unplanned cursor pending rest lead e signature h =>
    rw [scanFrom_of_unplanned pending h, Scan.items_constant] at hmem
    split at hmem <;> simp [Scan.stopped] at hmem
  | call cursor pending rest lead call list signature' h ih =>
    rw [scanFrom_of_call pending h, Scan.items_constant] at hmem
    have hmem' : .call c signature = Item.call call signature' ∨
        .call c signature ∈ (scanFrom p (list.closeAt + 1) [] list.rest).items := by
      split at hmem <;> simpa [Scan.cons] using hmem
    rcases hmem' with heq | hmem'
    · obtain ⟨rfl, rfl⟩ := Item.call.inj heq
      obtain ⟨body, -, -, hspan, hraises⟩ := body_of_step_call h
      rw [hspan]
      exact hraises e he
    · exact ih hmem'

variable {σ α : Type}

/-- Constant text and nothing else is one constant that covers the text. -/
theorem eq_single_constant {text : String} {segments : List Segment}
    (hsep : Segment.Separated segments) (hconst : ∀ x ∈ segments, x.isConstant = true)
    (hspell : Segment.spell? text.toList segments = some text.toList) :
    segments = if text = "" then [] else [.constant text] := by
  match segments, hsep, hconst, hspell with
  | [], _, _, hspell =>
    have htext : text = "" := by
      have := Option.some.inj hspell
      exact String.toList_eq_nil_iff.1 this.symm
    simp [htext]
  | [.token span], _, hconst, _ => simpa [Segment.isConstant] using hconst _ List.mem_cons_self
  | [.constant t], hsep, _, hspell =>
    have ht : t = text := by
      simpa [Segment.spell?, Segment.written?, String.toList_inj] using hspell
    subst ht
    have hne : t ≠ "" := by
      rintro rfl
      exact hsep.ne_empty List.mem_cons_self
    rw [if_neg hne]
  | x :: y :: segments, hsep, hconst, _ =>
    -- Two constants would stand next to each other.
    have hx := hconst x (by simp)
    have hy := hconst y (by simp)
    exact absurd ⟨hx, hy⟩ (List.isChain_cons_cons.1 hsep.apart).1

/-- Whatever the consumer does with the arguments, what it is told of a number expression spells a
first part of the text: all of it if nothing fails, and nothing past the start of the error
otherwise. No constant text is empty, no two stand next to each other, and constant text alone is
one constant. -/
theorem told_covers (p : Parser) (text : String) (k : Consumer σ α) (s : σ) :
    ∃ front back, text.toList = front ++ back ∧
      Segment.Tiles 0 (p.watch .number text k s).segments front ∧
      Segment.spell? text.toList (p.watch .number text k s).segments = some front ∧
      (∀ s', p.feed .number text k s = .ok () s' → back = []) ∧
      (∀ e s', p.feed .number text k s = .error e s' → width front ≤ e.span.start) ∧
      Segment.Separated (p.watch .number text k s).segments ∧
      ∀ s', p.feed .number text k s = .ok () s' →
        (∀ x ∈ (p.watch .number text k s).segments, x.isConstant = true) →
        (p.watch .number text k s).segments = if text = "" then [] else [.constant text] := by
  obtain ⟨front, back, htext, hcovers⟩ := covers_scanFrom p [] text.toList (Nat.zero_add 0)
  -- An argument that fails ends the callbacks early: what is told is a first part of the scan.
  obtain ⟨told, untold, rfl, htold, hall, hbehind⟩ :=
    p.tiles_watch .number text k s hcovers
      fun c signature e hmem he => start_le_of_raises hmem he
  have htext' : text.toList = told ++ (untold ++ back) := by
    rw [← List.append_assoc, ← htext, List.nil_append]
  have hspell := htold.spell?_eq [] rfl htext'
  have hback (s' : σ) (h : p.feed .number text k s = .ok () s') : untold ++ back = [] := by
    obtain ⟨huntold, hscan⟩ := hall (Parser.watch_error_of_feed_ok h)
    rw [huntold, hcovers.fit hscan, List.append_nil]
  have hsep : Segment.Separated (p.watch .number text k s).segments := by
    have hscan := separated_scanFrom p 0 [] text.toList
    rcases p.watch_cases .number text k s with
      ⟨-, hsegments⟩ | ⟨before, c, signature, after, e, hitems, -, hsegments, -⟩
    · rw [hsegments]
      exact hscan
    · rw [hsegments]
      change Segment.Separated ((p.scan .number text).items.map Item.segment) at hscan
      rw [hitems, List.map_append] at hscan
      exact hscan.left_of_append
  refine ⟨told, untold ++ back, htext', htold, hspell, hback, ?_, hsep, ?_⟩
  · intro e s' h
    simpa using hbehind e (Parser.watch_error_of_feed_error h)
  · intro s' h hconst
    rw [hback s' h, List.append_nil] at htext'
    exact eq_single_constant hsep hconst (htext' ▸ hspell)

end SceneExpr.Grammar.Number
