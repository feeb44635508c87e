import SceneExpr.Proofs.Grammar.Items
import SceneExpr.Proofs.Octets.Calls

namespace SceneExpr.Octets

open Grammar.Text

/-- The offset of the first quote that is not escaped; `i` is that of the first octet. -/
def unescapedQuote? : (i : Nat) → List UInt8 → Option Nat
  | _, [] => none
  | i, b :: bs =>
    if Char.ofUInt8 b = '\\' then
      match bs with
      | [] => none
      | _ :: bs => unescapedQuote? (i + 2) bs
    else if Char.ofUInt8 b = '"' then some i
    else unescapedQuote? (i + 1) bs

/-- The offsets of the plus signs in a gap, or that of the first octet which must not stand
there. -/
def gapPluses (started : Bool) : (offset : Nat) → List UInt8 → Except Nat (List Nat)
  | _, [] => .ok []
  | offset, b :: bs =>
    if started ∧ Char.ofUInt8 b = '+' then (gapPluses started (offset + 1) bs).map (offset :: ·)
    else if isAsciiBlank (Char.ofUInt8 b) then gapPluses started (offset + 1) bs
    else .error offset

section Machine

variable (p : Parser) (nested : ValueKind → String → Outcome Tree) (text : List Char)

/-- The first literal from an offset on: its span, and what stands between the quotes. -/
def scanLiteral (start : Nat) : Outcome (Option (Span × List Char)) :=
  match unescapedQuote? start ((octets text).drop start) with
  | none => return none
  | some opened =>
    match unescapedQuote? (opened + 1) ((octets text).drop (opened + 1)) with
    | none => do
      let s ← span opened (octets text).length
      raise .unterminatedLiteral s
    | some closed => do
      let raw ← part text (opened + 1) closed
      let s ← span opened (closed + 1)
      return some (s, raw)

def emitLiteral (fragments : List Fragment) (quote : Nat) : Outcome (List Fragment × Nat) := do
  match ← scanLiteral text quote with
  | none => return (fragments, quote + 1)
  | some (s, raw) =>
    return (fragments ++ [.literal (String.ofList (Literal.unescape raw)) s], s.stop)

def unexpectedAt {α : Type} (fault : String → Fault) (offset : Nat) : Outcome α := do
  let length := (octets text).length
  let after ← range text offset length
  let stop := min (max (stopAt text offset (firstOctet? endsRun after)) (offset + 1)) length
  let stop := ((List.range' stop (length + 1 - stop)).find? (isBoundary text)).getD length
  let s ← span offset stop
  let run ← part text offset stop
  raise (fault (String.ofList run)) s

/-- Takes in the gap in front of a token, if there is a token in front of the gap. -/
def checkGap (fragments : List Fragment) (previous : Option Nat) (stop : Nat) :
    Outcome (List Fragment) := do
  let start := previous.getD 0
  let gap ← part text start stop
  match gapPluses previous.isSome start (octets gap) with
  | .error offset => unexpectedAt text .unexpectedText offset
  | .ok offsets =>
    if previous.isNone then return fragments
    else
      match offsets with
      | [] => raise .missingPlus (.empty stop)
      | [_] => return fragments ++ [.constant (String.ofList gap)]
      | first :: _ => do
        let s ← span first (first + 1)
        raise .doubledPlus s

def checkTrailing (start : Nat) : Outcome Unit := do
  let after ← part text start (octets text).length
  match firstOctet? (fun c => !isAsciiBlank c) (octets after) with
  | none => return ()
  | some i => unexpectedAt text .trailingText (start + i)

def emitToken (fragments : List Fragment) (cursor offset : Nat) (mark : Mark) :
    Outcome (List Fragment × Nat) :=
  if mark = .quote then emitLiteral text fragments offset
  else do
    let site ← callSite text cursor offset mark
    if site.candidate.isWellFormed then
      match Resolution.find p.catalog p.scene .text site.candidate with
      | .ok r => emitCall nested text fragments site r
      | .error why => unknown text site why
    else unknown text site .notFound

def tokenStart (cursor offset : Nat) (mark : Mark) : Outcome Nat :=
  if mark = .quote then return offset else identifierStart text cursor offset

/-- Reads on from a cursor to behind the next token, if there is one; `previous` is where the token
before it ended. -/
def turnText (fragments : List Fragment) (cursor : Nat) (previous : Option Nat) :
    Outcome (Option (List Fragment × Nat)) :=
  match findMark? text cursor .text with
  | none => do
    checkTrailing text (previous.getD 0)
    return none
  | some (offset, mark) => do
    let start ← tokenStart text cursor offset mark
    let fragments ← checkGap text fragments previous start
    let token ← emitToken p nested text fragments cursor offset mark
    return some token

def runText :
    (fuel : Nat) → (fragments : List Fragment) → (cursor : Nat) → (previous : Option Nat) →
    Outcome (List Fragment)
  | 0, _, _, _ => .panic .endless
  | fuel + 1, fragments, cursor, previous => do
    match ← turnText p nested text fragments cursor previous with
    | none => return fragments
    | some (fragments, stop) => runText fuel fragments stop (some stop)

end Machine

section Literals

theorem unescapedQuote?_plain {b : UInt8} (hb : Char.ofUInt8 b ≠ '\\') (i : Nat)
    (bs : List UInt8) :
    unescapedQuote? i (b :: bs) =
      if Char.ofUInt8 b = '"' then some i else unescapedQuote? (i + 1) bs := by
  cases bs <;> simp [unescapedQuote?, hb]

theorem unescapedQuote?_skip {bs : List UInt8} (h : ∀ b ∈ bs, 128 ≤ b.toNat) (i : Nat)
    (rest : List UInt8) :
    unescapedQuote? i (bs ++ rest) = unescapedQuote? (i + bs.length) rest := by
  induction bs generalizing i with
  | nil => rfl
  | cons b bs ih =>
    have hb : 128 ≤ (Char.ofUInt8 b).toNat := by
      rw [toNat_ofUInt8]
      exact h b List.mem_cons_self
    rw [List.cons_append, unescapedQuote?_plain (ne_of_le hb (by decide)),
      if_neg (ne_of_le hb (by decide)), ih fun b' hb' => h b' (List.mem_cons_of_mem b hb'),
      List.length_cons, Nat.add_assoc, Nat.add_comm 1]

/-- The quote among the octets is the one at which the characters are cut. -/
theorem unescapedQuote?_eq (i : Nat) (cs : List Char) :
    unescapedQuote? i (octets cs) = (Literal.cut? cs).map fun p => i + width p.1 := by
  fun_induction Literal.cut? cs generalizing i with
  | case1 => rfl
  | case2 cs =>
    rw [octets_cons_of_lt (by decide), unescapedQuote?_plain (by decide), if_pos (by decide)]
    rfl
  | case3 c cs ih =>
    obtain ⟨b, bs, hb, -⟩ := exists_utf8EncodeChar_eq_cons c
    have hsize := utf8Size_of_cons hb
    have hback : Char.utf8Size '\\' = 1 := rfl
    rw [octets_cons_of_lt (c := '\\') (by decide), octets_cons, hb, List.cons_append,
      unescapedQuote?,
      ofUInt8_ofNat (by decide), if_pos rfl, unescapedQuote?_skip fun b' => le_of_mem_tail hb, ih,
      Option.map_map]
    congr 1
    funext p
    simp only [Function.comp, width_cons, hback, hsize]
    omega
  | case4 c cs hquote hescape ih =>
    rw [Option.map_map]
    by_cases hc : c.toNat < 128
    · by_cases hback : c = '\\'
      · cases cs with
        | nil =>
          subst hback
          rfl
        | cons d cs => exact absurd rfl (hescape d cs hback)
      · rw [octets_cons_of_lt hc, unescapedQuote?_plain (by rwa [ofUInt8_ofNat hc]),
          ofUInt8_ofNat hc, if_neg hquote, ih]
        simp only [Function.comp_def, width_cons, utf8Size_of_lt hc, Nat.add_assoc]
    · rw [octets_cons, unescapedQuote?_skip fun b hb =>
        le_of_mem_utf8EncodeChar (Nat.not_lt.1 hc) hb, String.length_utf8EncodeChar, ih]
      simp only [Function.comp_def, width_cons, Nat.add_assoc]

end Literals

variable {p : Parser} {nested : ValueKind → String → Except ParseError Tree} {text : List Char}
  {cursor : Nat} {cut : MarkedCut} {fragments : List Fragment}

theorem scanLiteral_eq {opened : Nat} {after : List Char} (h : RestAt text opened ('"' :: after)) :
    scanLiteral text opened =
      match Literal.cut? after with
      | none => .error (Fault.unterminatedLiteral.error ⟨opened, opened + 1 + width after⟩)
      | some (raw, _) => .ok (some (⟨opened, opened + width raw + 2⟩, raw)) := by
  have hquote : Char.utf8Size '"' = 1 := rfl
  have hafter := h.advance_cons
  rw [hquote] at hafter
  have hopen : unescapedQuote? opened (octets ('"' :: after)) = some opened := by
    rw [unescapedQuote?_eq, Literal.cut?]
    rfl
  rw [scanLiteral, drop_octets h, hopen]
  dsimp only
  rw [drop_octets hafter, unescapedQuote?_eq]
  cases hcut : Literal.cut? after with
  | none =>
    rw [Option.map_none, length_octets, hafter.width_eq, span_of_le (by omega), Outcome.ok_bind]
    exact raise_eq _ _
  | some q =>
    rw [← Literal.cut?_eq hcut] at hafter
    rw [Option.map_some]
    dsimp only
    rw [part_of_restAt hafter, Outcome.ok_bind, span_of_le (by omega), Outcome.ok_bind,
      Outcome.pure_eq]
    congr 4
    omega

theorem emitLiteral_eq {opened : Nat} {after : List Char} (h : RestAt text opened ('"' :: after)) :
    emitLiteral text fragments opened =
      match readLiteral opened after with
      | .error e => .error e
      | .ok t => .ofExcept ((t.item.built nested).map fun f => (fragments ++ [f], t.stop)) := by
  rw [emitLiteral, scanLiteral_eq h, readLiteral]
  cases Literal.cut? after <;> rfl

section Gaps

theorem lt_of_endsRun {c : Char} (h : endsRun c = true) : c.toNat < 128 := by
  simp only [endsRun, Bool.or_eq_true, decide_eq_true_eq] at h
  rcases h with (hblank | rfl) | rfl
  · exact lt_of_isAsciiBlank hblank
  · decide
  · decide

/-- The end of a run is found among the octets, and it falls between characters. -/
theorem unexpectedAt_eq {α : Type} (fault : String → Fault) {offset : Nat} {c : Char}
    {cs : List Char} (h : RestAt text offset (c :: cs)) :
    (unexpectedAt text fault offset : Outcome α) = .error (unexpected fault offset (c :: cs)) := by
  have hends : OctetWise endsRun := .of_ascii fun c => lt_of_endsRun
  obtain ⟨ds, hds⟩ := exists_append_unexpectedRun (c :: cs)
  have hlength : (octets text).length = offset + width (unexpectedRun (c :: cs)) + width ds := by
    have hwidth := congrArg width hds
    rw [width_append] at hwidth
    rw [length_octets, h.width_eq]
    omega
  have hrun : max (stopAt text offset (firstOctet? endsRun (octets (c :: cs)))) (offset + 1) =
      offset + width (unexpectedRun (c :: cs)) := by
    rw [stopAt_firstOctet? hends h, unexpectedRun]
    cases hc : endsRun c with
    | true =>
      rw [List.takeWhile_cons_of_neg (by simp [hc]), if_pos rfl, width_cons,
        utf8Size_of_lt (lt_of_endsRun hc)]
      exact Nat.max_eq_right (Nat.le_succ offset)
    | false =>
      have hpos := c.utf8Size_pos
      rw [List.takeWhile_cons_of_pos (by simp [hc]), if_neg (by simp), width_cons]
      omega
  rw [← hds] at h
  have hboundary := isBoundary_of_restAt h.advance
  have hmin : min (offset + width (unexpectedRun (c :: cs))) (octets text).length =
      offset + width (unexpectedRun (c :: cs)) := by omega
  have hcount : (octets text).length + 1 - (offset + width (unexpectedRun (c :: cs))) =
      width ds + 1 := by omega
  have hrange := range_to_end h
  rw [hds] at hrange
  rw [unexpectedAt]
  dsimp only
  rw [hrange, Outcome.ok_bind, hrun, hmin, hcount, List.range'_succ,
    List.find?_cons_of_pos hboundary, Option.getD_some, span_of_le (Nat.le_add_right _ _),
    Outcome.ok_bind, part_of_restAt h, Outcome.ok_bind, raise_eq]
  rfl

/-- The octets of a gap tell what its characters tell. -/
theorem gapPluses_eq (started : Bool) (offset : Nat) (gap : List Char) :
    gapPluses started offset (octets gap) =
      match misplaced? started offset gap with
      | some m => .error m.1
      | none => .ok (pluses offset gap) := by
  induction gap generalizing offset with
  | nil => rfl
  | cons c gap ih =>
    have hblank : OctetWise isAsciiBlank := .of_ascii fun c => lt_of_isAsciiBlank
    have hplus : OctetWise fun c => c = '+' := octetWise_eq (by decide)
    by_cases hc : c.toNat < 128
    · rw [octets_cons_of_lt hc, gapPluses, ofUInt8_ofNat hc, misplaced?, pluses,
        utf8Size_of_lt hc, ih]
      by_cases hcPlus : c = '+'
      · subst hcPlus
        cases started with
        | true =>
          simp only [true_and, if_true, decide_true, Bool.and_true, Bool.or_true]
          cases misplaced? true (offset + 1) gap <;> rfl
        | false => simp [show isAsciiBlank '+' = false by decide]
      · cases hcBlank : isAsciiBlank c with
        | true => simp [hcPlus]
        | false => simp [hcPlus]
    · obtain ⟨b, bs, hb, -⟩ := exists_utf8EncodeChar_eq_cons c
      have hmem : b ∈ String.utf8EncodeChar c := hb ▸ List.mem_cons_self
      have hcPlus : c ≠ '+' := ne_of_le (Nat.not_lt.1 hc) (by decide)
      have hcBlank : isAsciiBlank c = false := by
        rw [Bool.eq_false_iff]
        exact fun h => hc (lt_of_isAsciiBlank h)
      have hbBlank : isAsciiBlank (Char.ofUInt8 b) = false := by rw [hblank c b hmem, hcBlank]
      have hbPlus : Char.ofUInt8 b ≠ '+' := by simpa [hcPlus] using hplus c b hmem
      rw [octets_cons, hb, List.cons_append, gapPluses, misplaced?]
      simp [hcPlus, hcBlank, hbBlank, hbPlus]

theorem exists_cons_of_misplaced? {plusAllowed : Bool} {offset : Nat} {cs : List Char}
    {m : Nat × List Char} (h : misplaced? plusAllowed offset cs = some m) :
    ∃ d ds, m.2 = d :: ds := by
  induction cs generalizing offset with
  | nil => simp [misplaced?] at h
  | cons c cs ih =>
    rw [misplaced?] at h
    split at h
    · exact ih h
    · obtain rfl := Option.some.inj h
      exact ⟨c, cs, rfl⟩

def withGap (fragments : List Fragment) (started : Bool) (gap : List Char) : List Fragment :=
  if started then withConstant fragments gap else fragments

theorem builtAfter_afterGap {started : Bool} {gap : List Char} {s : Scan} :
    (afterGap started gap s).builtAfter nested fragments =
      s.builtAfter nested (withGap fragments started gap) := by
  unfold afterGap withGap
  split
  · exact Scan.builtAfter_constant gap
  · rfl

theorem checkGap_eq {previous : Option Nat} {gap past : List Char}
    (h : RestAt text (previous.getD 0) (gap ++ past)) :
    checkGap text fragments previous (previous.getD 0 + width gap) =
      match gapError? previous.isSome (previous.getD 0) gap past with
      | some e => .error e
      | none => .ok (withGap fragments previous.isSome gap) := by
  rw [checkGap, part_of_restAt h, Outcome.ok_bind, gapPluses_eq]
  unfold gapError?
  cases hm : misplaced? previous.isSome (previous.getD 0) gap with
  | some m =>
    obtain ⟨d, ds, hds⟩ := exists_cons_of_misplaced? hm
    have hmisplaced := restAt_of_misplaced? h hm
    dsimp only
    rw [hds, List.cons_append] at hmisplaced ⊢
    exact unexpectedAt_eq .unexpectedText hmisplaced
  | none =>
    dsimp only
    cases previous with
    | none => rfl
    | some n =>
      have hnone : (some n).isNone ≠ true := by simp
      rw [if_neg hnone, Option.isSome_some, if_pos rfl, Option.getD_some]
      match hp : pluses n gap with
      | [] => exact raise_eq _ _
      | [_] =>
        have hgap : gap ≠ [] := by
          rintro rfl
          cases hp
        simp only [withGap, withConstant, if_neg hgap, if_true]
        rfl
      | first :: _ :: _ =>
        dsimp only
        rw [span_of_le (Nat.le_succ first), Outcome.ok_bind]
        exact raise_eq _ _

theorem misplaced?_false_append {front : List Char} (h : ∀ c ∈ front, isAsciiBlank c = true)
    (offset : Nat) (cs : List Char) :
    misplaced? false offset (front ++ cs) = misplaced? false (offset + width front) cs := by
  induction front generalizing offset with
  | nil => rfl
  | cons c front ih =>
    rw [List.cons_append, misplaced?, if_pos (by simp [h c List.mem_cons_self]),
      ih fun d hd => h d (List.mem_cons_of_mem c hd), width_cons, Nat.add_assoc]

theorem checkTrailing_eq {start : Nat} {rest : List Char} (h : RestAt text start rest) :
    checkTrailing text start =
      match trailingError? start rest with
      | some e => .error e
      | none => .ok () := by
  have hblank : OctetWise fun c => !isAsciiBlank c :=
    OctetWise.not (.of_ascii fun c => lt_of_isAsciiBlank)
  rw [checkTrailing, part_to_end h, Outcome.ok_bind, trailingError?]
  rcases hblank.cases_firstOctet? rest
    with ⟨hnone, hall⟩ | ⟨front, c, back, rfl, hfront, hc, hsome⟩
  · have hmisplaced := misplaced?_false_append (fun c hc => by simpa using hall c hc) start []
    rw [List.append_nil] at hmisplaced
    rw [hnone, hmisplaced]
    rfl
  · have hmisplaced : misplaced? false start (front ++ c :: back) =
        some (start + width front, c :: back) := by
      rw [misplaced?_false_append fun c hc => by simpa using hfront c hc, misplaced?]
      simp [show isAsciiBlank c = false by simpa using hc]
    rw [hsome, hmisplaced]
    exact unexpectedAt_eq .trailingText h.advance

end Gaps

section Turns

variable {rest : List Char}

theorem emitToken_eq (h : RestAt text cursor (cut.before ++ cut.mark.char :: cut.after)) :
    emitToken p (checked nested) text fragments cursor (cursor + width cut.before) cut.mark =
      match readToken p cursor cut with
      | .error e => .error e
      | .ok t => .ofExcept ((t.item.built nested).map fun f => (fragments ++ [f], t.stop)) := by
  unfold emitToken readToken
  by_cases hquote : cut.mark = .quote
  · have hopened := h.advance
    rw [hquote, Mark.char] at hopened
    rw [if_pos hquote, if_pos hquote, emitLiteral_eq hopened]
  · rw [if_neg hquote, if_neg hquote, callSite_eq hquote h, readCall]
    cases hsite : CallSite.read cursor cut with
    | error e => rfl
    | ok site =>
      have hlayout := CallSite.layout_of_read hquote hsite
      obtain ⟨past, hwritten⟩ := hlayout.restAt_written h
      rw [Outcome.ofExcept_map_ok, Outcome.ok_bind, Site.isWellFormed_candidate,
        Site.find_candidate]
      unfold resolve
      dsimp only
      split
      · cases Resolution.find p.catalog p.scene .text site with
        | error why => exact unknown_eq hwritten why
        | ok r =>
          simp only [Except.mapError]
          rw [emitCall_eq hlayout h]
          cases site.plan r <;> rfl
      · exact unknown_eq hwritten .notFound

theorem tokenStart_eq (h : RestAt text cursor (cut.before ++ cut.mark.char :: cut.after)) :
    tokenStart text cursor (cursor + width cut.before) cut.mark =
      .ok (cursor + width (gapOf cut)) := by
  unfold tokenStart gapOf
  split
  · rfl
  · exact identifierStart_eq h

/-- A turn does one step of the scan. -/
theorem turnText_eq {previous : Option Nat} (hrest : RestAt text cursor rest)
    (hcursor : previous.getD 0 = cursor) :
    turnText p (checked nested) text fragments cursor previous =
      match nextMark? .text rest with
      | none =>
        match trailingError? cursor rest with
        | some e => .error e
        | none => .ok none
      | some cut =>
        match gapError? previous.isSome cursor (gapOf cut) (tokenText cut) with
        | some e => .error e
        | none =>
          match readToken p cursor cut with
          | .error e => .error e
          | .ok t => .ofExcept ((t.item.built nested).map fun f =>
            some (withGap fragments previous.isSome (gapOf cut) ++ [f], t.stop)) := by
  rw [turnText, findMark?_eq hrest]
  cases hcut : nextMark? .text rest with
  | none =>
    rw [Option.map_none]
    dsimp only
    rw [hcursor, checkTrailing_eq hrest]
    cases trailingError? cursor rest <;> rfl
  | some cut =>
    have hmarked := hrest
    rw [← nextMark?_eq hcut] at hmarked
    have hgap := hmarked
    rw [← gapOf_append_tokenText, ← hcursor] at hgap
    have hcheck : checkGap text fragments previous (cursor + width (gapOf cut)) = _ :=
      hcursor ▸ checkGap_eq hgap
    rw [Option.map_some]
    dsimp only
    rw [tokenStart_eq hmarked, Outcome.ok_bind, hcheck]
    cases gapError? previous.isSome cursor (gapOf cut) (tokenText cut) with
    | some e => rfl
    | none =>
      dsimp only
      rw [Outcome.ok_bind, emitToken_eq hmarked]
      cases readToken p cursor cut with
      | error e => rfl
      | ok t =>
        dsimp only
        cases t.item.built nested <;> rfl

/-- The loop builds what the scan holds. -/
theorem runText_eq {fuel : Nat} {previous : Option Nat} (hfuel : rest.length < fuel)
    (hrest : RestAt text cursor rest) (hcursor : previous.getD 0 = cursor)
    (fragments : List Fragment) :
    runText p (checked nested) text fuel fragments cursor previous =
      .ofExcept ((scanFrom p cursor previous.isSome rest).builtAfter nested fragments) := by
  induction fuel generalizing cursor previous rest fragments with
  | zero => exact absurd hfuel (Nat.not_lt_zero _)
  | succ fuel ih =>
    rw [runText, turnText_eq hrest hcursor, scanFrom_eq]
    match hcut : nextMark? .text rest with
    | none =>
      dsimp only
      cases trailingError? cursor rest with
      | some e => rfl
      | none => exact congrArg Outcome.ok (List.append_nil fragments).symm
    | some cut =>
      dsimp only
      cases gapError? previous.isSome cursor (gapOf cut) (tokenText cut) with
      | some e => rfl
      | none =>
        dsimp only
        rw [builtAfter_afterGap]
        match hread : readToken p cursor cut with
        | .error e => rfl
        | .ok t =>
          dsimp only
          rw [Scan.builtAfter_cons]
          cases t.item.built nested with
          | error e => rfl
          | ok f =>
            have hshorter := length_lt_of_readToken hcut hread
            obtain ⟨body, hbody, hstop, -⟩ := (layout_of_readToken hread).exists_body
            rw [← nextMark?_eq hcut, ← gapOf_append_tokenText, hbody] at hrest
            have hpast := hrest.advance.advance
            rw [← hstop] at hpast
            have hturns := Nat.lt_of_lt_of_le hshorter (Nat.le_of_lt_succ hfuel)
            exact ih hturns hpast (Option.getD_some : (some t.stop).getD 0 = t.stop) _

end Turns

end SceneExpr.Octets
