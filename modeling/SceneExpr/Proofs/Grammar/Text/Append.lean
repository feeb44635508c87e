import Mathlib
import SceneExpr.Catalog.Standard
import SceneExpr.Proofs.CallSite.Extend
import SceneExpr.Proofs.Grammar.Shift
import SceneExpr.Proofs.Grammar.Text.Joined
import SceneExpr.Proofs.Tree.Assembly

namespace SceneExpr

/-- The items of two scans, the second of which goes on where the first ends. -/
def Scan.followedBy (s t : Scan) : Scan := ⟨s.items ++ t.items, t.error⟩

theorem Scan.constant_followedBy (text : List Char) (s t : Scan) :
    (constant text s).followedBy t = constant text (s.followedBy t) := by
  unfold constant
  split <;> rfl

theorem Blank.count_plus {cs : List Char} (h : Blank cs) : cs.count '+' = 0 := by
  apply List.count_eq_zero.2
  intro hmem
  exact absurd (h '+' hmem) (by decide)

theorem Scan.built_followedBy {nested : ValueKind → String → Except ParseError Tree}
    {s t : Scan} {fs gs : List Fragment} (hs : s.built nested = .ok fs)
    (ht : t.built nested = .ok gs) :
    (s.followedBy t).built nested = .ok (fs ++ gs) := by
  obtain ⟨-, hsitems⟩ := built_eq_ok_iff.1 hs
  obtain ⟨hterror, htitems⟩ := built_eq_ok_iff.1 ht
  refine built_eq_ok_iff.2 ⟨hterror, ?_⟩
  rw [followedBy, List.mapM_append, hsitems, htitems]
  rfl

namespace IsGap

variable {gap cs : List Char}

theorem append_blank (hgap : IsGap gap) (hcs : Blank cs) : IsGap (gap ++ cs) where
  count_plus := by rw [List.count_append, hgap.count_plus, hcs.count_plus]
  plus_or_blank c hc := by
    rcases List.mem_append.1 hc with hc | hc
    · exact hgap.plus_or_blank c hc
    · exact .inr (hcs c hc)

theorem blank_append (hgap : IsGap gap) (hcs : Blank cs) : IsGap (cs ++ gap) where
  count_plus := by rw [List.count_append, hgap.count_plus, hcs.count_plus]
  plus_or_blank c hc := by
    rcases List.mem_append.1 hc with hc | hc
    · exact .inr (hcs c hc)
    · exact hgap.plus_or_blank c hc

theorem endsApart (h : IsGap gap) : EndsApart gap := by
  refine ⟨gap.dropLast, gap.getLast h.ne_nil, (List.dropLast_append_getLast h.ne_nil).symm, ?_⟩
  rcases h.plus_or_blank _ (List.getLast_mem h.ne_nil) with hc | hc
  · rw [hc]
    decide
  · simp [isSeparator, hc]

/-- No token begins in a gap. -/
theorem nextMark?_eq_none (h : IsGap gap) : nextMark? .text gap = none := by
  apply nextMark?_eq_none_iff.2
  intro c hc
  rcases h.plus_or_blank c hc with rfl | hblank
  · decide
  · simp only [isAsciiBlank, Bool.or_eq_true, decide_eq_true_eq] at hblank
    rcases hblank with (((rfl | rfl) | rfl) | rfl) | rfl <;> decide

end IsGap

namespace Grammar.Text

def Token.extend (t : Token) (ds : List Char) : Token := { t with past := t.past ++ ds }

theorem readToken_extend {p : Parser} {cursor : Nat} {cut : MarkedCut} {t : Token}
    (h : readToken p cursor cut = .ok t) (ds : List Char) :
    readToken p cursor (cut.extend ds) = .ok (t.extend ds) := by
  have hmark : (cut.extend ds).mark = cut.mark := rfl
  unfold readToken at h ⊢
  rw [hmark]
  split at h
  next hquote =>
    obtain ⟨raw, past, hraw, rfl⟩ := exists_of_readLiteral h
    rw [if_pos hquote, readLiteral]
    dsimp only [MarkedCut.extend]
    rw [Literal.cut?_append hraw ds]
    rfl
  next hquote =>
    obtain ⟨site, r, call, list, hsite, hr, hplan, rfl⟩ := exists_of_readCall h
    have hsite' := CallSite.read_extend_of_list hsite (CallSite.arguments_of_plan hplan) ds
    have hr' : resolve p (site.extend ds) = .ok r := hr
    have hplan' := CallSite.plan_extend site r ds
    rw [hplan] at hplan'
    rw [if_neg hquote, readCall]
    simp only [hsite', hr', hplan']
    rfl

theorem gapOf_behind {front : List Char} (hfront : EndsApart front) (cut : MarkedCut) :
    gapOf (cut.behind front) = front ++ gapOf cut := by
  unfold gapOf MarkedCut.behind
  split
  · rfl
  · exact beforeIdentifier_append hfront cut.before

/-- A token is read as if the text in front were not there. -/
theorem readToken_behind {front : List Char} (hfront : EndsApart front) (p : Parser) (cursor : Nat)
    (cut : MarkedCut) :
    readToken p cursor (cut.behind front) = readToken p (cursor + width front) cut := by
  have hmark : (cut.behind front).mark = cut.mark := rfl
  unfold readToken
  rw [hmark]
  split
  · have hopened : cursor + width (cut.behind front).before =
        cursor + width front + width cut.before := by
      rw [MarkedCut.behind, width_append, Nat.add_assoc]
    rw [hopened]
    rfl
  · unfold readCall
    rw [CallSite.read_behind hfront]
    cases CallSite.read (cursor + width front) cut <;> rfl

theorem afterGap_followedBy (started : Bool) (gap : List Char) (s t : Scan) :
    (afterGap started gap s).followedBy t = afterGap started gap (s.followedBy t) := by
  unfold afterGap
  split
  · exact Scan.constant_followedBy gap s t
  · rfl

/-- Whatever follows a text that can be scanned, its tokens are scanned first. -/
theorem exists_trail {p : Parser} {cursor : Nat} {started : Bool} {rest : List Char}
    (herror : (scanFrom p cursor started rest).error = none)
    (hstarted : started = true ∨ nextMark? .text rest ≠ none) :
    ∃ front trail, rest = front ++ trail ∧ Blank trail ∧
      (∀ ds, scanFrom p cursor started (rest ++ ds) =
        (scanFrom p cursor started rest).followedBy
          (scanFrom p (cursor + width front) true (trail ++ ds))) ∧
      ((scanFrom p cursor started rest).items = [] ∧ started = true ∧ front = [] ∨
        ∃ items i start, (scanFrom p cursor started rest).items = items ++ [i] ∧
          i.segment = .token ⟨start, cursor + width front⟩) := by
  induction cursor, started, rest using scan_induction (p := p) with
  | finish cursor started rest hcut =>
    -- No token is left: the blanks at the end go to the gap.
    obtain rfl : started = true := hstarted.resolve_right fun h => h hcut
    rw [scanFrom_of_finish hcut] at herror ⊢
    exact ⟨[], rest, rfl, blank_of_trailingError? herror, fun ds =>
      rfl, .inl ⟨rfl, rfl, rfl⟩⟩
  | gap cursor started rest cut e hcut hgap =>
    rw [scanFrom_of_gap hcut hgap] at herror
    simp [Scan.stopped] at herror
  | fail cursor started rest cut e hcut hgap hread =>
    rw [scanFrom_of_fail hcut hgap hread, error_afterGap] at herror
    simp [Scan.stopped] at herror
  | token cursor started rest cut t hcut hgap hread ih =>
    rw [scanFrom_of_token hcut hgap hread, error_afterGap] at herror
    obtain ⟨front, trail, hpast, htrail, hmore, hlast⟩ := ih herror (.inl rfl)
    obtain ⟨body, hbody, hstop, hsegment⟩ := (layout_of_readToken hread).exists_body
    have hfront : cursor + width (gapOf cut ++ body ++ front) = t.stop + width front := by
      simp only [width_append]
      omega
    refine ⟨gapOf cut ++ body ++ front, trail, ?_, htrail, ?_, .inr ?_⟩
    · rw [← nextMark?_eq hcut, ← gapOf_append_tokenText, hbody, hpast]
      simp
    · intro ds
      have hgap' : gapError? started cursor (gapOf (cut.extend ds)) (tokenText (cut.extend ds)) =
          none := gapError?_eq_none_iff.2 (gapError?_eq_none_iff.1 hgap)
      rw [scanFrom_of_token (nextMark?_append_of_some hcut ds) hgap' (readToken_extend hread ds),
        scanFrom_of_token hcut hgap hread, afterGap_followedBy, hfront]
      exact congrArg (fun s => afterGap started (gapOf cut) (.cons t.item s)) (hmore ds)
    · rw [scanFrom_of_token hcut hgap hread, items_afterGap (gapError?_eq_none_iff.1 hgap), hfront]
      generalize (if started = true then [Item.constant (String.ofList (gapOf cut))] else []) = told
      rcases hlast with ⟨hitems, -, rfl⟩ | ⟨items, i, start, hitems, hi⟩
      · refine ⟨told, t.item, cursor + width (gapOf cut), ?_, ?_⟩
        · rw [Scan.cons, hitems]
        · rw [hsegment, hstop]
          rfl
      · refine ⟨told ++ t.item :: items, i, start, ?_, hi⟩
        rw [Scan.cons, hitems, List.append_assoc]
        rfl

theorem exists_token {p : Parser} {cursor : Nat} {started : Bool} {rest : List Char}
    {cut : MarkedCut} (herror : (scanFrom p cursor started rest).error = none)
    (hcut : nextMark? .text rest = some cut) :
    gapError? started cursor (gapOf cut) (tokenText cut) = none ∧
      ∃ t, readToken p cursor cut = .ok t := by
  cases hgap : gapError? started cursor (gapOf cut) (tokenText cut) with
  | some e =>
    rw [scanFrom_of_gap hcut hgap] at herror
    simp [Scan.stopped] at herror
  | none =>
    cases hread : readToken p cursor cut with
    | error e =>
      rw [scanFrom_of_fail hcut hgap hread, error_afterGap] at herror
      simp [Scan.stopped] at herror
    | ok t => exact ⟨rfl, t, rfl⟩

/-- Behind a gap a text is scanned as if it stood alone. Its blanks in front go to the gap. -/
theorem scanFrom_behind {p : Parser} {cursor : Nat} {gap rest : List Char} {cut : MarkedCut}
    (hgap : IsGap gap) (herror : (scanFrom p (cursor + width gap) false rest).error = none)
    (hcut : nextMark? .text rest = some cut) :
    scanFrom p cursor true (gap ++ rest) =
      .cons (.constant (String.ofList (gap ++ gapOf cut)))
        (scanFrom p (cursor + width gap) false rest) := by
  have hcut' : nextMark? .text (gap ++ rest) = some (cut.behind gap) := by
    rw [nextMark?_append_of_none hgap.nextMark?_eq_none, hcut, Option.map_some]
  have hgapOf := gapOf_behind hgap.endsApart cut
  obtain ⟨hlead, t, hread⟩ := exists_token herror hcut
  have hread' : readToken p cursor (cut.behind gap) = .ok t := by
    rw [readToken_behind hgap.endsApart, hread]
  have hlonger : IsGap (gap ++ gapOf cut) := hgap.append_blank (gapError?_eq_none_iff.1 hlead)
  have hgap' : gapError? true cursor (gapOf (cut.behind gap)) (tokenText (cut.behind gap)) =
      none := by
    rw [gapError?_eq_none_iff, hgapOf]
    exact hlonger
  rw [scanFrom_of_token hcut' hgap' hread', scanFrom_of_token hcut hlead hread, hgapOf,
    afterGap_true, Scan.constant, if_neg hlonger.ne_nil]
  rfl

theorem mark_of_scan {p : Parser} {text : List Char} (h : (scan p text).error = none) :
    nextMark? .text text ≠ none := by
  intro hnone
  rw [scan, hnone] at h
  simp [Scan.stopped] at h

/-- The items of two texts with a gap in between: those of the one, the gap with the blanks around
it, and those of the other. -/
theorem scan_append {p : Parser} {a b gap : List Char} (ha : (scan p a).error = none)
    (hb : (scan p b).error = none) (hgap : IsGap gap) :
    ∃ front trail lead back, a = front ++ trail ∧ b = lead ++ back ∧ Blank trail ∧
      Blank lead ∧
      scan p (a ++ gap ++ b) = (scan p a).followedBy
        (.cons (.constant (String.ofList (trail ++ gap ++ lead)))
          ((scan p b).shift (width a + width gap))) ∧
      (∃ items i start, (scan p a).items = items ++ [i] ∧
        i.segment = .token ⟨start, width front⟩) ∧
      ∃ i items stop, (scan p b).items = i :: items ∧
        i.segment = .token ⟨width lead, stop⟩ := by
  have hamark := mark_of_scan ha
  have hbmark := mark_of_scan hb
  obtain ⟨cut, hcut⟩ := Option.ne_none_iff_exists'.1 hbmark
  rw [scan_of_mark hamark] at ha ⊢
  rw [scan_of_mark hbmark] at hb ⊢
  obtain ⟨front, trail, rfl, htrail, hmore, hlast⟩ := exists_trail ha (.inr hamark)
  obtain ⟨hlead, t, hread⟩ := exists_token hb hcut
  obtain ⟨body, -, -, hsegment⟩ := (layout_of_readToken hread).exists_body
  have hgap' : IsGap (trail ++ gap) := hgap.blank_append htrail
  have hstart : 0 + width front + width (trail ++ gap) =
      0 + (width (front ++ trail) + width gap) := by
    simp only [width_append]
    omega
  -- The second text is scanned from further right, which shifts what is found and changes nothing
  -- else.
  have hb' : scanFrom p (0 + width front + width (trail ++ gap)) false b =
      (scanFrom p 0 false b).shift (width (front ++ trail) + width gap) := by
    rw [hstart, scanFrom_shift]
  have hberror : (scanFrom p (0 + width front + width (trail ++ gap)) false b).error = none := by
    rw [hb', Scan.shift, hb]
    rfl
  have hmark : nextMark? .text (front ++ trail ++ gap ++ b) ≠ none := by
    obtain ⟨cut', hcut'⟩ := Option.ne_none_iff_exists'.1 hamark
    rw [List.append_assoc _ gap, nextMark?_append_of_some hcut']
    simp
  refine ⟨front, trail, gapOf cut, tokenText cut, rfl, ?_, htrail,
    gapError?_eq_none_iff.1 hlead, ?_, ?_, ?_⟩
  · rw [gapOf_append_tokenText, nextMark?_eq hcut]
  · rw [scan_of_mark hmark, List.append_assoc _ gap, hmore, ← List.append_assoc trail,
      scanFrom_behind hgap' hberror hcut, hb']
  · rcases hlast with ⟨-, hstarted, -⟩ | hlast
    · cases hstarted
    · simpa using hlast
  · rw [scanFrom_of_token hcut hlead hread]
    exact ⟨t.item, _, _, rfl, by simpa using hsegment⟩

/-- Two text expressions with a gap in between are one text expression. It has the fragments of the
one, then the gap with the blanks around it, then the fragments of the other. -/
theorem build_append_gap {p : Parser} {a b gap : String} {ta tb : Tree}
    (ha : p.build .text a = .ok ta) (hb : p.build .text b = .ok tb) (hgap : IsGap gap.toList) :
    ∃ last first trail lead,
      ta.fragments.getLast?.map Fragment.segment = some (.token last) ∧
      tb.fragments.head?.map Fragment.segment = some (.token first) ∧
      Span.slice? ⟨last.stop, a.utf8ByteSize⟩ a.toList = some trail ∧
      Span.slice? ⟨0, first.start⟩ b.toList = some lead ∧ Blank trail ∧ Blank lead ∧
      p.build .text (a ++ gap ++ b) = .ok (.node .text
        (ta.fragments ++ .constant (String.ofList (trail ++ gap.toList ++ lead)) ::
          tb.fragments.map (·.shift (a.utf8ByteSize + gap.utf8ByteSize)))) := by
  obtain ⟨nested, hnested⟩ := p.exists_nested
  rw [hnested] at ha hb ⊢
  have hfa : (scan p a.toList).built nested = .ok ta.fragments := Parser.built_of_buildWith ha
  have hfb : (scan p b.toList).built nested = .ok tb.fragments := Parser.built_of_buildWith hb
  obtain ⟨front, trail, lead, back, hatext, hbtext, htrail, hlead, hscan, hlast, hfirst⟩ :=
    scan_append (Scan.built_eq_ok_iff.1 hfa).1 (Scan.built_eq_ok_iff.1 hfb).1 hgap
  obtain ⟨items, i, start, hitems, hi⟩ := hlast
  obtain ⟨j, items', stop, hitems', hj⟩ := hfirst
  refine ⟨⟨start, width front⟩, ⟨width lead, stop⟩, trail, lead, ?_, ?_, ?_, ?_, htrail,
    hlead, ?_⟩
  · rw [← List.getLast?_map, Scan.segments_of_built hfa, hitems, List.map_append]
    simp [hi]
  · rw [← List.head?_map, Scan.segments_of_built hfb, hitems']
    simp [hj]
  · refine Span.slice?_eq_some_iff.2 ⟨front, [], by simp [hatext], rfl, ?_⟩
    rw [← width_toList, hatext, width_append]
  · exact Span.slice?_eq_some_iff.2 ⟨[], back, by simp [hbtext], rfl, by simp⟩
  · have hmoved := Scan.built_shift nested (width a.toList + width gap.toList) (scan p b.toList)
    rw [hfb] at hmoved
    have hgapbuilt : Item.built nested (.constant (String.ofList (trail ++ gap.toList ++ lead))) =
      .ok (.constant (String.ofList (trail ++ gap.toList ++ lead))) := rfl
    have hjoined := Scan.built_followedBy hfa
      (Scan.built_cons_eq_ok_iff.2 ⟨_, _, hgapbuilt, hmoved, rfl⟩)
    rw [← hscan, ← String.toList_append, ← String.toList_append] at hjoined
    rw [Parser.buildWith_eq, Parser.scan, hjoined, width_toList, width_toList]
    rfl

/-- A literal and a call with an argument, joined. -/
theorem build_append_literal_call :
    let p : Parser := ⟨.indexed "1.0" Catalog.Standard.stringFunctions, .empty, {}⟩
    let call (span : Span) : Fragment := .call ⟨.static, "ToString",
      [.parsed .number "1 + 2" (.node .number [.constant "1 + 2"])], span⟩
    p.build .text "\"a\" " = .ok (.node .text [.literal "a" ⟨0, 3⟩]) ∧
      p.build .text " ToString(1 + 2)" = .ok (.node .text [call ⟨1, 16⟩]) ∧
      IsGap "+".toList ∧
      ∃ trail lead, Blank trail ∧ Blank lead ∧
        p.build .text ("\"a\" " ++ "+" ++ " ToString(1 + 2)") = .ok (.node .text
          ([.literal "a" ⟨0, 3⟩] ++ .constant (String.ofList (trail ++ "+".toList ++ lead)) ::
            [call ⟨6, 21⟩])) := by
  intro p call
  have ha : p.build .text "\"a\" " = .ok (.node .text [.literal "a" ⟨0, 3⟩]) := by cbv
  have hb : p.build .text " ToString(1 + 2)" = .ok (.node .text [call ⟨1, 16⟩]) := by cbv
  have hgap : IsGap "+".toList := ⟨by decide, by simp⟩
  obtain ⟨_, _, trail, lead, -, -, -, -, htrail, hlead, h⟩ := build_append_gap ha hb hgap
  exact ⟨ha, hb, hgap, trail, lead, htrail, hlead, h⟩

end Grammar.Text

end SceneExpr
