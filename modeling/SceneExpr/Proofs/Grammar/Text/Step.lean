import SceneExpr.Grammar.Text
import SceneExpr.Proofs.Segment
import SceneExpr.Proofs.CallSite.Layout

namespace SceneExpr.Grammar.Text

/-- A literal or a call, and where the text goes on. -/
structure Token where
  item : Item
  stop : Nat
  past : List Char

/-- The text in front of the token that a mark belongs to. -/
def gapOf (cut : MarkedCut) : List Char :=
  if cut.mark = .quote then cut.before else beforeIdentifier cut.before

def tokenText (cut : MarkedCut) : List Char :=
  if cut.mark = .quote then cut.mark.char :: cut.after
  else lastIdentifier cut.before ++ cut.mark.char :: cut.after

theorem gapOf_append_tokenText (cut : MarkedCut) :
    gapOf cut ++ tokenText cut = cut.before ++ cut.mark.char :: cut.after := by
  unfold gapOf tokenText
  split
  · rfl
  · rw [← List.append_assoc, beforeIdentifier_append_lastIdentifier]

def readLiteral (opened : Nat) (after : List Char) : Except ParseError Token :=
  match Literal.cut? after with
  | none => .error (Fault.unterminatedLiteral.error ⟨opened, opened + 1 + width after⟩)
  | some (raw, past) => .ok {
      item := .literal (String.ofList (Literal.unescape raw)) ⟨opened, opened + width raw + 2⟩
      stop := opened + width raw + 2
      past := past }

def readCall (p : Parser) (cursor : Nat) (cut : MarkedCut) : Except ParseError Token :=
  match CallSite.read cursor cut with
  | .error e => .error e
  | .ok site =>
    match resolve p site with
    | .error e => .error e
    | .ok r =>
      match site.plan r with
      | .error e => .error e
      | .ok (call, list) => .ok ⟨.call call r.signature, list.closeAt + 1, list.rest⟩

def readToken (p : Parser) (cursor : Nat) (cut : MarkedCut) : Except ParseError Token :=
  if cut.mark = .quote then readLiteral (cursor + width cut.before) cut.after
  else readCall p cursor cut

/-- A scan takes the gap and the token of the next mark and goes on. -/
theorem scanFrom_eq (p : Parser) (cursor : Nat) (started : Bool) (rest : List Char) :
    scanFrom p cursor started rest =
      match nextMark? .text rest with
      | none => ⟨[], trailingError? cursor rest⟩
      | some cut =>
        match gapError? started cursor (gapOf cut) (tokenText cut) with
        | some e => .stopped e
        | none =>
          afterGap started (gapOf cut) <|
            match readToken p cursor cut with
            | .error e => .stopped e
            | .ok t => .cons t.item (scanFrom p t.stop true t.past) := by
  rw [scanFrom]
  split
  next hcut => simp only [hcut]
  next cut hcut =>
    simp only [hcut]
    -- Literals and calls have branches of their own in the definition, and the same shape.
    by_cases hquote : cut.mark = .quote
    · simp only [gapOf, tokenText, readToken, readLiteral, if_pos hquote]
      cases gapError? started cursor cut.before (cut.mark.char :: cut.after) with
      | some e => rfl
      | none =>
        dsimp only
        congr 1
        split
        next hraw => simp only [hraw]
        next raw past hraw => simp only [hraw]
    · simp only [gapOf, tokenText, readToken, readCall, if_neg hquote]
      cases gapError? started cursor (beforeIdentifier cut.before)
        (lastIdentifier cut.before ++ cut.mark.char :: cut.after) with
      | some e => rfl
      | none =>
        dsimp only
        congr 1
        split
        next e hsite => simp only [hsite]
        next site hsite =>
          simp only [hsite]
          cases resolve p site with
          | error e => rfl
          | ok r =>
            dsimp only
            split
            next e hplan => simp only [hplan]
            next call list hplan => simp only [hplan]

section Equations

variable {p : Parser} {cursor : Nat} {started : Bool} {rest : List Char} {cut : MarkedCut}

theorem scanFrom_of_finish (hcut : nextMark? .text rest = none) :
    scanFrom p cursor started rest = ⟨[], trailingError? cursor rest⟩ := by
  rw [scanFrom_eq, hcut]

theorem scanFrom_of_gap {e : ParseError} (hcut : nextMark? .text rest = some cut)
    (hgap : gapError? started cursor (gapOf cut) (tokenText cut) = some e) :
    scanFrom p cursor started rest = .stopped e := by
  rw [scanFrom_eq, hcut]
  simp only [hgap]

theorem scanFrom_of_fail {e : ParseError} (hcut : nextMark? .text rest = some cut)
    (hgap : gapError? started cursor (gapOf cut) (tokenText cut) = none)
    (hread : readToken p cursor cut = .error e) :
    scanFrom p cursor started rest = afterGap started (gapOf cut) (.stopped e) := by
  rw [scanFrom_eq, hcut]
  simp only [hgap, hread]

theorem scanFrom_of_token {t : Token} (hcut : nextMark? .text rest = some cut)
    (hgap : gapError? started cursor (gapOf cut) (tokenText cut) = none)
    (hread : readToken p cursor cut = .ok t) :
    scanFrom p cursor started rest =
      afterGap started (gapOf cut) (.cons t.item (scanFrom p t.stop true t.past)) := by
  rw [scanFrom_eq, hcut]
  simp only [hgap, hread]

end Equations

theorem scan_of_mark {p : Parser} {text : List Char} (h : nextMark? .text text ≠ none) :
    scan p text = scanFrom p 0 false text := if_neg (by simpa using h)

/-- Where a token stands, and what its arguments can be blamed for. -/
structure Token.Layout (start : Nat) (text : List Char) (t : Token) : Prop where
  exists_body : ∃ body, text = body ++ t.past ∧ t.stop = start + width body ∧
    t.item.segment = .token ⟨start, start + width body⟩
  raises : ∀ c signature e, t.item = .call c signature → c.Raises e → start ≤ e.span.start

section Tokens

variable {p : Parser} {cursor : Nat} {cut : MarkedCut}

theorem start_of_resolve_error {site : CallSite} {e : ParseError} (h : resolve p site = .error e) :
    site.start ≤ e.span.start := by
  unfold resolve at h
  split at h
  · cases hfind : Resolution.find p.catalog p.scene .text site <;>
      rw [hfind] at h
    · obtain rfl := Except.error.inj h
      exact Nat.le_refl _
    · cases h
  · obtain rfl := Except.error.inj h
    exact Nat.le_refl _

theorem exists_of_readLiteral {opened : Nat} {after : List Char} {t : Token}
    (h : readLiteral opened after = .ok t) :
    ∃ raw past, Literal.cut? after = some (raw, past) ∧ t = {
      item := .literal (String.ofList (Literal.unescape raw)) ⟨opened, opened + width raw + 2⟩
      stop := opened + width raw + 2
      past := past } := by
  unfold readLiteral at h
  split at h
  · simp at h
  next raw past hraw => exact ⟨raw, past, hraw, (Except.ok.inj h).symm⟩

/-- All that reading a call takes. -/
theorem exists_of_readCall {t : Token} (h : readCall p cursor cut = .ok t) :
    ∃ site r call list, CallSite.read cursor cut = .ok site ∧ resolve p site = .ok r ∧
      site.plan r = .ok (call, list) ∧
      t = ⟨.call call r.signature, list.closeAt + 1, list.rest⟩ := by
  unfold readCall at h
  split at h
  · simp at h
  next site hsite =>
    split at h
    · simp at h
    next r hr =>
      split at h
      · simp at h
      next call list hplan =>
        exact ⟨site, r, call, list, hsite, hr, hplan, (Except.ok.inj h).symm⟩

theorem layout_of_readLiteral {opened : Nat} {after : List Char} {t : Token}
    (h : readLiteral opened after = .ok t) : t.Layout opened ('"' :: after) := by
  obtain ⟨raw, past, hraw, rfl⟩ := exists_of_readLiteral h
  have hafter := Literal.cut?_eq hraw
  have hquote : Char.utf8Size '"' = 1 := rfl
  have hwidth : width ('"' :: raw ++ ['"']) = width raw + 2 := by
    simp only [width_append, width_cons, width_nil, hquote]
    omega
  refine ⟨⟨'"' :: raw ++ ['"'], ?_, ?_, ?_⟩, by simp⟩
  · rw [← hafter]
    simp
  · rw [hwidth, Nat.add_assoc]
  · rw [hwidth, Item.segment, Nat.add_assoc]

theorem layout_of_readCall {t : Token} (hmark : cut.mark ≠ .quote)
    (h : readCall p cursor cut = .ok t) :
    t.Layout (cursor + width (beforeIdentifier cut.before))
      (lastIdentifier cut.before ++ cut.mark.char :: cut.after) := by
  obtain ⟨site, r, call, list, hsite, -, hplan, rfl⟩ := exists_of_readCall h
  have hlayout := CallSite.layout_of_read hmark hsite
  have hlead := CallSite.lead_of_read hsite
  obtain ⟨body, hrest, hclose, -, -⟩ := hlayout.exists_body (CallSite.arguments_of_plan hplan)
  rw [← hlead, ← hlayout.start_eq]
  refine ⟨⟨body, ?_, hclose, ?_⟩, ?_⟩
  · have hwhole : site.lead ++ (lastIdentifier cut.before ++ cut.mark.char :: cut.after) =
        site.lead ++ (body ++ list.rest) := by
      rw [← List.append_assoc, ← List.append_assoc, ← hrest, hlead,
        beforeIdentifier_append_lastIdentifier]
    exact List.append_cancel_left hwhole
  · rw [Item.segment, CallSite.span_of_plan hplan, hclose]
  · intro c signature e hitem hraises
    obtain ⟨rfl, -⟩ := Item.call.inj hitem
    exact CallSite.start_le_of_plan_raises hlayout hplan hraises

/-- A token stands right behind its gap. -/
theorem layout_of_readToken {t : Token} (h : readToken p cursor cut = .ok t) :
    t.Layout (cursor + width (gapOf cut)) (tokenText cut) := by
  unfold readToken at h
  unfold gapOf tokenText
  split at h
  next hquote =>
    rw [if_pos hquote, if_pos hquote, hquote]
    exact layout_of_readLiteral h
  next hquote =>
    rw [if_neg hquote, if_neg hquote]
    exact layout_of_readCall hquote h

theorem start_of_readToken_error {e : ParseError} (h : readToken p cursor cut = .error e) :
    cursor + width (gapOf cut) ≤ e.span.start := by
  unfold readToken at h
  unfold gapOf
  split at h
  next hquote =>
    rw [if_pos hquote]
    unfold readLiteral at h
    split at h
    · obtain rfl := Except.error.inj h
      exact Nat.le_refl _
    · simp at h
  next hquote =>
    rw [if_neg hquote]
    unfold readCall at h
    split at h
    next hsite =>
      obtain rfl := Except.error.inj h
      exact CallSite.start_of_read_error hsite
    next site hsite =>
      have hlayout := CallSite.layout_of_read hquote hsite
      rw [← CallSite.lead_of_read hsite, ← hlayout.start_eq]
      split at h
      next hr =>
        obtain rfl := Except.error.inj h
        exact start_of_resolve_error hr
      next r hr =>
        split at h
        next hplan =>
          obtain rfl := Except.error.inj h
          exact CallSite.start_le_of_plan_error hlayout hplan
        · simp at h

theorem length_lt_of_readToken {rest : List Char} {t : Token}
    (hcut : nextMark? .text rest = some cut) (h : readToken p cursor cut = .ok t) :
    t.past.length < rest.length := by
  have hafter := after_length_lt_of_nextMark? hcut
  unfold readToken at h
  split at h
  · obtain ⟨raw, past, hraw, rfl⟩ := exists_of_readLiteral h
    exact Nat.lt_trans (Literal.cut?_length_lt hraw) hafter
  · obtain ⟨site, r, call, list, hsite, -, hplan, rfl⟩ := exists_of_readCall h
    have hlist := CallSite.list_rest_length_lt hsite (CallSite.arguments_of_plan hplan)
    exact Nat.lt_trans hlist hafter

end Tokens

/-- What holds where a scan ends, and holds before a token if it holds past it, holds everywhere. -/
theorem scan_induction {p : Parser} {motive : Nat → Bool → List Char → Prop}
    (finish : ∀ cursor started rest, nextMark? .text rest = none → motive cursor started rest)
    (gap : ∀ cursor started rest cut e, nextMark? .text rest = some cut →
      gapError? started cursor (gapOf cut) (tokenText cut) = some e → motive cursor started rest)
    (fail : ∀ cursor started rest cut e, nextMark? .text rest = some cut →
      gapError? started cursor (gapOf cut) (tokenText cut) = none →
      readToken p cursor cut = .error e → motive cursor started rest)
    (token : ∀ cursor started rest cut t, nextMark? .text rest = some cut →
      gapError? started cursor (gapOf cut) (tokenText cut) = none →
      readToken p cursor cut = .ok t → motive t.stop true t.past → motive cursor started rest)
    (cursor : Nat) (started : Bool) (rest : List Char) : motive cursor started rest := by
  match hcut : nextMark? .text rest with
  | none => exact finish cursor started rest hcut
  | some cut =>
    match hgap : gapError? started cursor (gapOf cut) (tokenText cut) with
    | some e => exact gap cursor started rest cut e hcut hgap
    | none =>
      match hread : readToken p cursor cut with
      | .error e => exact fail cursor started rest cut e hcut hgap hread
      | .ok t =>
        exact token cursor started rest cut t hcut hgap hread
          (scan_induction finish gap fail token t.stop true t.past)
termination_by rest.length
decreasing_by exact length_lt_of_readToken hcut hread

/-- Parsers that read the same tokens scan alike. -/
theorem scanFrom_congr {p p' : Parser}
    (hread : ∀ cursor cut, readToken p cursor cut = readToken p' cursor cut) (cursor : Nat)
    (started : Bool) (rest : List Char) :
    scanFrom p cursor started rest = scanFrom p' cursor started rest := by
  induction cursor, started, rest using scan_induction (p := p) with
  | finish cursor started rest hcut => rw [scanFrom_of_finish hcut, scanFrom_of_finish hcut]
  | gap cursor started rest cut e hcut hgap =>
    rw [scanFrom_of_gap hcut hgap, scanFrom_of_gap hcut hgap]
  | fail cursor started rest cut e hcut hgap hfail =>
    rw [scanFrom_of_fail hcut hgap hfail,
      scanFrom_of_fail hcut hgap ((hread cursor cut).symm.trans hfail)]
  | token cursor started rest cut t hcut hgap htoken ih =>
    rw [scanFrom_of_token hcut hgap htoken,
      scanFrom_of_token hcut hgap ((hread cursor cut).symm.trans htoken), ih]

theorem scan_congr {p p' : Parser}
    (hread : ∀ cursor cut, readToken p cursor cut = readToken p' cursor cut) (text : List Char) :
    scan p text = scan p' text := by
  rw [scan, scan, scanFrom_congr hread]

end SceneExpr.Grammar.Text
