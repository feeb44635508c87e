import SceneExpr.Proofs.Grammar.Items

namespace SceneExpr

/-- The error reports a fault that a text has by itself, wherever it is nested. -/
def ParseError.OfText (e : ParseError) : Prop :=
  ∃ (fault : Fault) (span : Span), fault.kind ≠ .nestingTooDeep ∧ e = fault.error span

theorem ParseError.OfText.kind_ne {e : ParseError} (h : e.OfText) : e.kind ≠ .nestingTooDeep := by
  obtain ⟨fault, span, hkind, rfl⟩ := h
  exact hkind

theorem Fault.ofText {fault : Fault} (h : fault.kind ≠ .nestingTooDeep) (span : Span) :
    (fault.error span).OfText := ⟨fault, span, h, rfl⟩

theorem ArgumentList.ofText_of_read {function inner : List Char} {openAt : Nat} {e : ParseError}
    (h : read function openAt inner = .error e) : e.OfText := by
  unfold read at h
  split at h
  · obtain rfl := Except.error.inj h
    exact Fault.ofText (by simp [Fault.kind]) _
  · simp at h

namespace CallSite

variable {s : CallSite} {e : ParseError}

theorem ofText_of_listAfter (h : s.listAfter = .error e) : e.OfText := by
  unfold listAfter at h
  split at h
  · exact ArgumentList.ofText_of_read (error_of_map_error h)
  · simp at h

theorem ofText_of_read {cursor : Nat} {cut : MarkedCut} (h : read cursor cut = .error e) :
    e.OfText := by
  unfold read at h
  split at h
  · rw [atDot_eq] at h
    split at h
    · exact ofText_of_listAfter (error_of_map_error h)
    · simp at h
  · rw [atParen_eq] at h
    exact ArgumentList.ofText_of_read (error_of_map_error h)

/-- A site is not planned where its argument list is missing or does not fit. -/
theorem fault_of_plan {r : Resolution} (h : s.plan r = .error e) :
    ∃ (fault : Fault) (span : Span),
    (fault.kind = .missingArgumentList ∨ fault.kind = .arityMismatch) ∧
    e = fault.error span := by
  unfold plan at h
  split at h
  · obtain rfl := Except.error.inj h
    exact ⟨_, _, .inl rfl, rfl⟩
  next list hlist =>
    split at h
    next hbind =>
      obtain rfl := Except.error.inj h
      unfold Binding.bind at hbind
      dsimp only at hbind
      split at hbind
      · obtain rfl := Except.error.inj hbind
        exact ⟨_, _, .inr rfl, rfl⟩
      · simp at hbind
    · simp at h

theorem ofText_of_plan {r : Resolution} (h : s.plan r = .error e) : e.OfText := by
  obtain ⟨fault, span, hkind, rfl⟩ := fault_of_plan h
  refine Fault.ofText (fun htooDeep => ?_) span
  rw [htooDeep] at hkind
  exact hkind.elim nofun nofun

theorem kind_ne_of_plan {r : Resolution} (h : s.plan r = .error e) :
    e.kind ≠ .unbalancedParentheses := by
  obtain ⟨fault, span, hkind, rfl⟩ := fault_of_plan h
  intro hunclosed
  rw [show fault.kind = .unbalancedParentheses from hunclosed] at hkind
  exact hkind.elim nofun nofun

/-- Names that stand for nothing are unknown functions in one way or another. -/
theorem kind_unknown (s : CallSite) (why : Unresolved) :
    (s.unknown why).kind = .unknownFunction := by
  unfold unknown
  split <;> rfl

theorem ofText_unknown (s : CallSite) (why : Unresolved) (span : Span) :
    ((s.unknown why).error span).OfText :=
  Fault.ofText (by rw [kind_unknown]; decide) span

end CallSite

def Scan.FaultsOfText (s : Scan) : Prop := ∀ e, s.error = some e → e.OfText

namespace Scan

theorem FaultsOfText.finished : finished.FaultsOfText := fun _ he => (by cases he)

theorem FaultsOfText.stopped {e : ParseError} (h : e.OfText) : (stopped e).FaultsOfText := by
  intro e' he
  obtain rfl := Option.some.inj he
  exact h

theorem FaultsOfText.cons {s : Scan} (h : s.FaultsOfText) {i : Item} : (cons i s).FaultsOfText := h

theorem FaultsOfText.constant {s : Scan} (h : s.FaultsOfText) (text : List Char) :
    (constant text s).FaultsOfText := by
  unfold Scan.constant
  split <;> exact h

end Scan

namespace Grammar.Number

variable {p : Parser}

theorem ofText_of_strictError? {site : CallSite} {e : ParseError}
    (h : strictError? p site = some e) :
    e.OfText := by
  unfold strictError? at h
  split at h
  · obtain rfl := Option.some.inj h
    exact site.ofText_unknown _ _
  · simp at h

theorem faultsOfText_scanFrom (p : Parser) (cursor : Nat) (pending rest : List Char) :
    (scanFrom p cursor pending rest).FaultsOfText := by
  induction cursor, pending, rest using scan_induction (p := p) with
  | finish cursor pending rest h =>
    rw [scanFrom_of_finish pending h]
    exact .constant .finished _
  | fail cursor pending rest e h =>
    rw [scanFrom_of_fail pending h]
    have hdoes := does_step p cursor rest
    rw [h] at hdoes
    cases hdoes with
    | unread _ hread => exact .stopped (CallSite.ofText_of_read hread)
    | refused _ _ _ he => exact .stopped (ofText_of_strictError? he)
  | pass cursor pending rest skipped past h ih =>
    rw [scanFrom_of_pass pending h]
    exact ih
  | unplanned cursor pending rest lead e signature h =>
    rw [scanFrom_of_unplanned pending h]
    have hdoes := does_step p cursor rest
    rw [h] at hdoes
    cases hdoes with
    | found _ _ _ hplan => exact .constant (.stopped (CallSite.ofText_of_plan hplan)) _
  | call cursor pending rest lead call list signature h ih =>
    rw [scanFrom_of_call pending h]
    exact .constant ih.cons _

end Grammar.Number

namespace Grammar.Text

variable {p : Parser} {e : ParseError}

theorem ofText_of_gapError? {started : Bool} {offset : Nat} {gap past : List Char}
    (h : gapError? started offset gap past = some e) : e.OfText := by
  unfold gapError? at h
  split at h
  · obtain rfl := Option.some.inj h
    exact Fault.ofText (by simp [Fault.kind]) _
  · split at h
    · split at h
      · obtain rfl := Option.some.inj h
        exact Fault.ofText (by simp [Fault.kind]) _
      · simp at h
      · obtain rfl := Option.some.inj h
        exact Fault.ofText (by simp [Fault.kind]) _
    · simp at h

theorem ofText_of_trailingError? {offset : Nat} {cs : List Char}
    (h : trailingError? offset cs = some e) :
    e.OfText := by
  obtain ⟨m, -, rfl⟩ := Option.map_eq_some_iff.1 h
  exact Fault.ofText (by simp [Fault.kind]) _

theorem ofText_of_resolve {site : CallSite} (h : resolve p site = .error e) : e.OfText := by
  unfold resolve at h
  split at h
  · cases hfind : Resolution.find p.catalog p.scene .text site <;>
      rw [hfind] at h
    · obtain rfl := Except.error.inj h
      exact site.ofText_unknown _ _
    · cases h
  · obtain rfl := Except.error.inj h
    exact site.ofText_unknown _ _

theorem ofText_of_readToken {cursor : Nat} {cut : MarkedCut}
    (h : readToken p cursor cut = .error e) :
    e.OfText := by
  unfold readToken at h
  split at h
  · unfold readLiteral at h
    split at h
    · obtain rfl := Except.error.inj h
      exact Fault.ofText (by simp [Fault.kind]) _
    · simp at h
  · unfold readCall at h
    split at h
    next hsite =>
      obtain rfl := Except.error.inj h
      exact CallSite.ofText_of_read hsite
    next =>
      split at h
      next hr =>
        obtain rfl := Except.error.inj h
        exact ofText_of_resolve hr
      next =>
        split at h
        next hplan =>
          obtain rfl := Except.error.inj h
          exact CallSite.ofText_of_plan hplan
        · simp at h

theorem faultsOfText_afterGap {s : Scan} (h : s.FaultsOfText) (started : Bool) (gap : List Char) :
    (afterGap started gap s).FaultsOfText := by
  unfold afterGap
  split
  · exact h.constant gap
  · exact h

theorem faultsOfText_scanFrom (p : Parser) (cursor : Nat) (started : Bool) (rest : List Char) :
    (scanFrom p cursor started rest).FaultsOfText := by
  induction cursor, started, rest using scan_induction (p := p) with
  | finish cursor started rest hcut =>
    rw [scanFrom_of_finish hcut]
    exact fun e he => ofText_of_trailingError? he
  | gap cursor started rest cut e hcut hgap =>
    rw [scanFrom_of_gap hcut hgap]
    exact .stopped (ofText_of_gapError? hgap)
  | fail cursor started rest cut e hcut hgap hread =>
    rw [scanFrom_of_fail hcut hgap hread]
    exact faultsOfText_afterGap (.stopped (ofText_of_readToken hread)) _ _
  | token cursor started rest cut t hcut hgap hread ih =>
    rw [scanFrom_of_token hcut hgap hread]
    exact faultsOfText_afterGap ih.cons _ _

end Grammar.Text

/-- Scanning a text finds nothing but faults of this text. -/
theorem Parser.faultsOfText_scan (p : Parser) (kind : ValueKind) (text : String) :
    (p.scan kind text).FaultsOfText := by
  cases kind with
  | number => exact Grammar.Number.faultsOfText_scanFrom p 0 [] text.toList
  | text =>
    change (Grammar.Text.scan p text.toList).FaultsOfText
    unfold Grammar.Text.scan
    split
    · exact .stopped (Fault.ofText (by simp [Fault.kind]) _)
    · exact Grammar.Text.faultsOfText_scanFrom p 0 false text.toList

end SceneExpr
