import SceneExpr.Proofs.Consumer.Watched
import SceneExpr.Proofs.Grammar.Text.Step

namespace SceneExpr

def Blank (cs : List Char) : Prop := ∀ c ∈ cs, isAsciiBlank c = true

/-- One plus sign, and ASCII blanks otherwise. -/
structure IsGap (cs : List Char) : Prop where
  count_plus : cs.count '+' = 1
  plus_or_blank : ∀ c ∈ cs, c = '+' ∨ isAsciiBlank c = true

theorem IsGap.ne_nil {cs : List Char} (h : IsGap cs) : cs ≠ [] := by
  rintro rfl
  simpa using h.count_plus

namespace Grammar.Text

theorem misplaced?_eq_none_iff {plusAllowed : Bool} {offset : Nat} {cs : List Char} :
    misplaced? plusAllowed offset cs = none ↔
      ∀ c ∈ cs, isAsciiBlank c = true ∨ plusAllowed = true ∧ c = '+' := by
  induction cs generalizing offset with
  | nil => simp [misplaced?]
  | cons c cs ih =>
    rw [misplaced?]
    split
    next h =>
      have hc : isAsciiBlank c = true ∨ plusAllowed = true ∧ c = '+' := by simpa using h
      rw [ih, List.forall_mem_cons]
      exact ⟨fun hcs => ⟨hc, hcs⟩, fun hall => hall.2⟩
    next h =>
      have hc : ¬(isAsciiBlank c = true ∨ plusAllowed = true ∧ c = '+') := by simpa using h
      rw [List.forall_mem_cons]
      exact ⟨fun hsome => by simp at hsome, fun hall => absurd hall.1 hc⟩

theorem le_of_misplaced? {plusAllowed : Bool} {offset : Nat} {cs : List Char}
    {m : Nat × List Char} (h : misplaced? plusAllowed offset cs = some m) : offset ≤ m.1 := by
  induction cs generalizing offset with
  | nil => simp [misplaced?] at h
  | cons c cs ih =>
    rw [misplaced?] at h
    split at h
    · exact Nat.le_trans (Nat.le_add_right _ _) (ih h)
    · obtain rfl := Option.some.inj h
      exact Nat.le_refl _

theorem length_pluses (offset : Nat) (cs : List Char) :
    (pluses offset cs).length = cs.count '+' := by
  induction cs generalizing offset with
  | nil => rfl
  | cons c cs ih =>
    rw [pluses]
    split
    next h => rw [List.length_cons, ih, h, List.count_cons_self]
    next h => rw [ih, List.count_cons_of_ne h]

theorem le_of_mem_pluses {offset n : Nat} {cs : List Char} (h : n ∈ pluses offset cs) :
    offset ≤ n := by
  induction cs generalizing offset with
  | nil => simp [pluses] at h
  | cons c cs ih =>
    rw [pluses] at h
    split at h
    · rcases List.mem_cons.1 h with rfl | h
      · exact Nat.le_refl _
      · exact Nat.le_trans (Nat.le_add_right _ _) (ih h)
    · exact Nat.le_trans (Nat.le_add_right _ _) (ih h)

/-- Between two tokens a gap is allowed, and in front of the first one blanks. -/
theorem gapError?_eq_none_iff {started : Bool} {offset : Nat} {gap past : List Char} :
    gapError? started offset gap past = none ↔ if started then IsGap gap else Blank gap := by
  have hlength := length_pluses offset gap
  cases started with
  | false =>
    have hblank : misplaced? false offset gap = none ↔ _ := misplaced?_eq_none_iff
    simp only [Bool.false_eq_true, false_and, or_false] at hblank
    rw [if_neg (by decide), Blank, ← hblank, gapError?]
    cases misplaced? false offset gap <;> simp
  | true =>
    have hchars : misplaced? true offset gap = none ↔ _ := misplaced?_eq_none_iff
    simp only [true_and, or_comm] at hchars
    rw [if_pos rfl, gapError?]
    cases hm : misplaced? true offset gap with
    | some m =>
      refine ⟨fun h => by simp at h, fun h => ?_⟩
      rw [hchars.2 h.plus_or_blank] at hm
      simp at hm
    | none =>
      cases hp : pluses offset gap with
      | nil =>
        refine ⟨fun h => by simp at h, fun h => ?_⟩
        have := h.count_plus
        rw [← hlength, hp] at this
        simp at this
      | cons first more =>
        cases more with
        | nil => exact ⟨fun _ => ⟨by rw [← hlength, hp]; rfl, hchars.1 hm⟩, fun _ => rfl⟩
        | cons second more =>
          refine ⟨fun h => by simp at h, fun h => ?_⟩
          have := h.count_plus
          rw [← hlength, hp] at this
          simp at this

theorem le_of_gapError? {started : Bool} {offset : Nat} {gap past : List Char} {e : ParseError}
    (h : gapError? started offset gap past = some e) : offset ≤ e.span.start := by
  unfold gapError? at h
  split at h
  next found cs hm =>
    obtain rfl := Option.some.inj h
    exact le_of_misplaced? hm
  next =>
    split at h
    · split at h
      · obtain rfl := Option.some.inj h
        exact Nat.le_add_right _ _
      · simp at h
      next first more _ hp =>
        obtain rfl := Option.some.inj h
        have hfirst : first ∈ pluses offset gap := by
          rw [hp]
          exact List.mem_cons_self
        exact le_of_mem_pluses hfirst
    · simp at h

theorem blank_of_trailingError? {offset : Nat} {cs : List Char}
    (h : trailingError? offset cs = none) : Blank cs := by
  have hm : misplaced? false offset cs = none := Option.map_eq_none_iff.1 h
  intro c hc
  simpa using misplaced?_eq_none_iff.1 hm c hc

theorem le_of_trailingError? {offset : Nat} {cs : List Char} {e : ParseError}
    (h : trailingError? offset cs = some e) : offset ≤ e.span.start := by
  obtain ⟨m, hm, rfl⟩ := Option.map_eq_some_iff.1 h
  exact le_of_misplaced? hm

/-- The gap in front of a token is told as it is, unless the token is the first. -/
theorem items_afterGap {started : Bool} {gap : List Char} {s : Scan}
    (hgap : if started then IsGap gap else Blank gap) :
    (afterGap started gap s).items =
      (if started then [.constant (String.ofList gap)] else []) ++ s.items := by
  cases started with
  | false => rfl
  | true =>
    have hne : gap ≠ [] := IsGap.ne_nil hgap
    rw [afterGap, if_pos rfl, Scan.items_constant, if_neg hne, if_pos rfl]

@[simp] theorem error_afterGap (started : Bool) (gap : List Char) (s : Scan) :
    (afterGap started gap s).error = s.error := by
  unfold afterGap
  split
  · exact Scan.error_constant gap s
  · rfl

theorem afterGap_true (gap : List Char) (s : Scan) : afterGap true gap s = .constant gap s := rfl

/-- A gap in front of a token is part of what is held, blanks in front of the first token are
not. -/
theorem covers_afterGap {cursor : Nat} {started : Bool} {gap front back : List Char} {s : Scan}
    (hgap : if started then IsGap gap else Blank gap)
    (h : s.Covers Blank (cursor + width gap) front back) :
    ∃ lead held, gap ++ front = lead ++ held ∧ Blank lead ∧ (started = true → lead = []) ∧
      (afterGap started gap s).Covers Blank (cursor + width lead) held back := by
  cases started with
  | false => exact ⟨gap, front, rfl, hgap, by simp, h⟩
  | true => exact ⟨[], gap ++ front, rfl, by simp [Blank], fun _ => rfl, h.constant gap⟩

/-- Some blanks in front of the first token apart, the items of a scan hold the text up to the error
or up to the blanks at the end. -/
theorem covers_scanFrom (p : Parser) (cursor : Nat) (started : Bool) (rest : List Char) :
    ∃ lead front back, rest = lead ++ front ++ back ∧ Blank lead ∧
      (started = true → lead = []) ∧
      (scanFrom p cursor started rest).Covers Blank (cursor + width lead) front back := by
  -- Blanks are left out in front of the first token only, so `lead` is empty behind it.
  induction cursor, started, rest using scan_induction (p := p) with
  | finish cursor started rest hcut =>
    rw [scanFrom_of_finish hcut]
    exact ⟨[], [], rest, rfl, by simp [Blank], fun _ => rfl,
      .nil _, blank_of_trailingError?, fun e he => le_of_trailingError? he⟩
  | gap cursor started rest cut e hcut hgap =>
    rw [scanFrom_of_gap hcut hgap]
    exact ⟨[], [], rest, rfl, by simp [Blank], fun _ => rfl, .stopped (le_of_gapError? hgap)⟩
  | fail cursor started rest cut e hcut hgap hread =>
    rw [scanFrom_of_fail hcut hgap hread]
    have hstopped : (Scan.stopped e).Covers Blank (cursor + width (gapOf cut)) [] (tokenText cut) :=
      .stopped (start_of_readToken_error hread)
    obtain ⟨lead, front, heq, hlead, hstarted, hcovers⟩ :=
      covers_afterGap (gapError?_eq_none_iff.1 hgap) hstopped
    refine ⟨lead, front, tokenText cut, ?_, hlead, hstarted, hcovers⟩
    rw [← heq, List.append_nil, gapOf_append_tokenText, nextMark?_eq hcut]
  | token cursor started rest cut t hcut hgap hread ih =>
    rw [scanFrom_of_token hcut hgap hread]
    obtain ⟨body, hbody, hstop, hsegment⟩ := (layout_of_readToken hread).exists_body
    obtain ⟨lead', front', back, hpast, -, hlead', hpastcovers⟩ := ih
    obtain rfl := hlead' rfl
    have htoken : (Scan.cons t.item (scanFrom p t.stop true t.past)).Covers Blank
        (cursor + width (gapOf cut)) (body ++ front') back :=
      .token body hsegment (by rwa [← hstop])
    obtain ⟨lead, front, heq, hlead, hstarted, hcovers⟩ :=
      covers_afterGap (gapError?_eq_none_iff.1 hgap) htoken
    refine ⟨lead, front, back, ?_, hlead, hstarted, hcovers⟩
    rw [← heq, ← nextMark?_eq hcut, ← gapOf_append_tokenText, hbody, hpast]
    simp

/-- Tokens with a gap between any two. -/
inductive Alternates : List Segment → Prop where
  | single (span : Span) : Alternates [.token span]
  | cons {segments : List Segment} {gap : List Char} (span : Span) : IsGap gap →
      Alternates segments → Alternates (.token span :: .constant (String.ofList gap) :: segments)

theorem alternates_scanFrom {p : Parser} {cursor : Nat} {started : Bool} {rest : List Char}
    (herror : (scanFrom p cursor started rest).error = none)
    (hmark : nextMark? .text rest ≠ none) :
    ∃ gap segments, (if started then IsGap gap else Blank gap) ∧ Alternates segments ∧
      (scanFrom p cursor started rest).items.map Item.segment =
        (if started then [.constant (String.ofList gap)] else []) ++ segments := by
  induction cursor, started, rest using scan_induction (p := p) with
  | finish cursor started rest hcut => exact absurd hcut hmark
  | gap cursor started rest cut e hcut hgap =>
    rw [scanFrom_of_gap hcut hgap] at herror
    simp [Scan.stopped] at herror
  | fail cursor started rest cut e hcut hgap hread =>
    rw [scanFrom_of_fail hcut hgap hread, error_afterGap] at herror
    simp [Scan.stopped] at herror
  | token cursor started rest cut t hcut hgap hread ih =>
    rw [scanFrom_of_token hcut hgap hread, error_afterGap] at herror
    rw [scanFrom_of_token hcut hgap hread]
    rw [gapError?_eq_none_iff] at hgap
    obtain ⟨body, -, -, hsegment⟩ := (layout_of_readToken hread).exists_body
    rw [items_afterGap hgap]
    refine ⟨gapOf cut, t.item.segment ::
      (scanFrom p t.stop true t.past).items.map Item.segment, hgap, ?_, ?_⟩
    · rw [hsegment]
      by_cases hnext : nextMark? .text t.past = none
      · rw [scanFrom_of_finish hnext]
        exact .single _
      · obtain ⟨gap, segments, hgap', halt, hsegments⟩ := ih herror hnext
        rw [hsegments]
        exact .cons _ hgap' halt
    · cases started <;> rfl

/-- The segments spell tokens and gaps in turn, from the first token to the last. -/
inductive Joined (text : List Char) : List Segment → List Char → Prop where
  | single {span : Span} {piece : List Char} : span.slice? text = some piece →
      Joined text [.token span] piece
  | cons {span : Span} {piece gap cs : List Char} {segments : List Segment} :
      span.slice? text = some piece → IsGap gap → Joined text segments cs →
      Joined text (.token span :: .constant (String.ofList gap) :: segments) (piece ++ gap ++ cs)

theorem Alternates.joined {segments : List Segment} (h : Alternates segments) {n : Nat}
    {text front cs back : List Char} (htiles : Segment.Tiles n segments cs) (hn : width front = n)
    (htext : text = front ++ cs ++ back) : Joined text segments cs := by
  have hslice {piece past : List Char} {n : Nat} {front : List Char} (hn : width front = n)
      (htext : text = front ++ piece ++ past) :
      Span.slice? ⟨n, n + width piece⟩ text = some piece :=
    Span.slice?_eq_some_iff.2 ⟨front, past, htext, hn, by rw [hn]⟩
  induction h generalizing n front cs with
  | single span =>
    cases htiles with
    | token piece htail =>
      cases htail
      rw [List.append_nil] at htext ⊢
      exact .single (hslice hn htext)
  | @cons segments gap span hgap halt ih =>
    cases htiles with
    | @token _ _ ds piece htail =>
      generalize hc : String.ofList gap = told at htail
      cases htail with
      | @constant _ _ ds' cs htail =>
        have hcs : cs = gap := by simpa using congrArg String.toList hc.symm
        subst hcs
        rw [← List.append_assoc]
        have htext' : text = front ++ piece ++ (cs ++ ds' ++ back) := by simp [htext]
        have htext'' : text = front ++ piece ++ cs ++ ds' ++ back := by simp [htext]
        apply Joined.cons (hslice hn htext') hgap
        exact ih htail (by simp [hn, Nat.add_assoc]) htext''

theorem joined_of_scan {p : Parser} {text lead front back : List Char}
    (herror : (scan p text).error = none) (htext : text = lead ++ front ++ back)
    (htiles : Segment.Tiles (width lead) ((scan p text).items.map Item.segment) front) :
    Joined text ((scan p text).items.map Item.segment) front := by
  unfold scan at herror htiles ⊢
  split at herror
  · simp [Scan.stopped] at herror
  next hmark =>
    rw [if_neg hmark] at htiles ⊢
    obtain ⟨gap, segments, -, halt, hsegments⟩ :=
      alternates_scanFrom herror (by simpa using hmark)
    rw [if_neg (by decide), List.nil_append] at hsegments
    rw [hsegments] at htiles ⊢
    exact halt.joined htiles rfl htext

theorem covers_scan (p : Parser) (text : List Char) :
    ∃ lead front back, text = lead ++ front ++ back ∧ Blank lead ∧
      (scan p text).Covers Blank (width lead) front back := by
  unfold scan
  split
  · exact ⟨[], [], text, rfl, by simp [Blank], .stopped (Nat.zero_le _)⟩
  · obtain ⟨lead, front, back, htext, hblank, -, hcovers⟩ := covers_scanFrom p 0 false text
    rw [Nat.zero_add] at hcovers
    exact ⟨lead, front, back, htext, hblank, hcovers⟩

/-- An argument is reported behind the start of its call. -/
theorem start_le_of_raises {p : Parser} {cursor : Nat} {started : Bool} {rest : List Char}
    {c : Call Origin} {signature : Signature}
    (hmem : .call c signature ∈ (scanFrom p cursor started rest).items) {e : ParseError}
    (he : c.Raises e) : c.span.start ≤ e.span.start := by
  induction cursor, started, rest using scan_induction (p := p) with
  | finish cursor started rest hcut => simp [scanFrom_of_finish hcut] at hmem
  | gap cursor started rest cut e hcut hgap =>
    simp [scanFrom_of_gap hcut hgap, Scan.stopped] at hmem
  | fail cursor started rest cut e hcut hgap hread =>
    rw [scanFrom_of_fail hcut hgap hread, items_afterGap (gapError?_eq_none_iff.1 hgap)] at hmem
    cases started <;> simp [Scan.stopped] at hmem
  | token cursor started rest cut t hcut hgap hread ih =>
    rw [scanFrom_of_token hcut hgap hread, items_afterGap (gapError?_eq_none_iff.1 hgap)] at hmem
    have hmem' : .call c signature = t.item ∨
        .call c signature ∈ (scanFrom p t.stop true t.past).items := by
      cases started <;> simpa [Scan.cons] using hmem
    rcases hmem' with heq | hmem'
    · have hlayout := layout_of_readToken hread
      obtain ⟨body, -, -, hsegment⟩ := hlayout.exists_body
      rw [← heq, Item.segment] at hsegment
      rw [Segment.token.inj hsegment]
      exact hlayout.raises c signature e heq.symm he
    · exact ih hmem'

variable {σ α : Type}

/-- Whatever the consumer does with the arguments: if a text expression is accepted, then it is
tokens joined by gaps with blanks around, and the consumer is told of these tokens and gaps; if not,
then what the consumer is told of spells a first part of the text behind some blanks, and the error
lies past it. -/
theorem told_joins (p : Parser) (text : String) (k : Consumer σ α) (s : σ) :
    (∀ s', p.feed .text text k s = .ok () s' →
      ∃ lead front trail, text.toList = lead ++ front ++ trail ∧ Blank lead ∧ Blank trail ∧
        Segment.Tiles (width lead) (p.watch .text text k s).segments front ∧
        Joined text.toList (p.watch .text text k s).segments front) ∧
    ∀ e s', p.feed .text text k s = .error e s' →
      ∃ lead front past, text.toList = lead ++ front ++ past ∧ Blank lead ∧
        ((p.watch .text text k s).segments = [] → lead = []) ∧
        Segment.Tiles (width lead) (p.watch .text text k s).segments front ∧
        Segment.spell? text.toList (p.watch .text text k s).segments = some front ∧
        width (lead ++ front) ≤ e.span.start := by
  obtain ⟨lead, front, back, htext, hlead, hcovers⟩ := covers_scan p text.toList
  have hraises : ∀ c signature e, .call c signature ∈ (p.scan .text text).items →
      c.Raises e →
      c.span.start ≤ e.span.start := by
    intro c signature e hmem he
    simp only [Parser.scan, scan] at hmem
    split at hmem
    · simp [Scan.stopped] at hmem
    · exact start_le_of_raises hmem he
  constructor
  · intro s' h
    have hnone := Parser.watch_error_of_feed_ok h
    rcases p.watch_cases .text text k s with
      ⟨he, hsegments⟩ | ⟨before, c, signature, after, e, -, he, -, -⟩
    · have hscan : (scan p text.toList).error = none := he.symm.trans hnone
      refine ⟨lead, front, back, htext, hlead, hcovers.fit hscan, ?_, ?_⟩
      · rw [hsegments]
        exact hcovers.tiles
      · rw [hsegments]
        exact joined_of_scan hscan htext hcovers.tiles
    · simp [he] at hnone
  · intro e s' h
    obtain ⟨told, untold, rfl, htold, -, hbehind⟩ :=
      p.tiles_watch .text text k s hcovers hraises
    have hle := hbehind e (Parser.watch_error_of_feed_error h)
    -- If the first token was not told, nothing was, and the blanks in front need not count.
    by_cases hempty : (p.watch .text text k s).segments = []
    · rw [hempty]
      exact ⟨[], [], text.toList, rfl, by simp [Blank], fun _ => rfl, .nil _, rfl,
        Nat.zero_le _⟩
    · have htext' : text.toList = lead ++ told ++ (untold ++ back) := by simp [htext]
      refine ⟨lead, told, untold ++ back, htext', hlead, fun h => absurd h hempty, htold,
        htold.spell?_eq lead rfl htext', ?_⟩
      rw [width_append]
      exact hle

end Grammar.Text

end SceneExpr
