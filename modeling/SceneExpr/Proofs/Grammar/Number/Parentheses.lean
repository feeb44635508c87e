import Mathlib
import SceneExpr.Catalog.Standard
import SceneExpr.EventLog
import SceneExpr.Proofs.CallSite.Alone
import SceneExpr.Proofs.Consumer.Observed
import SceneExpr.Proofs.Grammar.Number.Coverage

namespace SceneExpr.Grammar.Number

/-- What may stand in front of a parenthesis under the strict policy: no name, the name of a math
function, or the member of an owner. -/
inductive Admits (front : List Char) : Prop where
  | grouping : lastIdentifier front = [] → Admits front
  | builtin : String.ofList (lastIdentifier front) ∈ Builtin.mathFunctions → Admits front
  | member {before : List Char} {c : Char} : beforeIdentifier front = before ++ [c, '.'] →
      isSeparator c = false → Admits front

/-- The text in front of a place where a scan goes on, and the text behind it. -/
inductive Edge : List Char → List Char → Prop where
  | start (rest : List Char) : Edge [] rest
  | apart {done : List Char} (rest : List Char) : EndsApart done → Edge done rest
  | member {before member rest : List Char} {c : Char} : isSeparator c = false →
      (∀ d ∈ member, isSeparator d = false) →
      (∀ d ∈ rest.head?, CallSite.endsMember d = true) →
      Edge (before ++ [c, '.'] ++ member) rest

theorem admits_of_isBuiltin {front : List Char}
    (h : Builtin.isBuiltin (String.ofList (lastIdentifier front)) = true) : Admits front := by
  rw [Builtin.isBuiltin, Bool.or_eq_true, decide_eq_true_eq, List.contains_iff_mem] at h
  rcases h with h | h
  · refine .grouping ?_
    rw [← String.toList_ofList (l := lastIdentifier front), h]
    rfl
  · exact .builtin h

theorem isSeparator_of_endsMember {c : Char} (h : CallSite.endsMember c = true) :
    isSeparator c = true := by
  by_contra hc
  rw [not_endsMember_of_not_isSeparator (Bool.eq_false_iff.2 hc)] at h
  cases h

/-- The name in front of a parenthesis is the one that is seen from the edge, or else the member
that the edge leaves behind. -/
theorem Edge.admits {done front back : List Char} (h : Edge done (front ++ '(' :: back))
    (hname : Builtin.isBuiltin (String.ofList (lastIdentifier front)) = true) :
    Admits (done ++ front) := by
  cases h with
  | start => exact admits_of_isBuiltin hname
  | apart _ hdone =>
    apply admits_of_isBuiltin
    rwa [lastIdentifier_append hdone]
  | @member before member _ c hc hmember hhead =>
    cases front with
    | nil =>
      have hbefore : beforeIdentifier (before ++ [c, '.'] ++ member) = before ++ [c, '.'] := by
        rw [beforeIdentifier_append ⟨before ++ [c], '.', by simp, rfl⟩,
          beforeIdentifier_eq_nil hmember, List.append_nil]
      rw [List.append_nil]
      exact .member hbefore hc
    | cons d ds =>
      have hd : isSeparator d = true := isSeparator_of_endsMember (hhead d rfl)
      have hds : lastIdentifier ([d] ++ ds) = lastIdentifier ds :=
        lastIdentifier_append ⟨[], d, rfl, hd⟩ ds
      apply admits_of_isBuiltin
      rwa [List.append_cons, lastIdentifier_append ⟨_, d, rfl, hd⟩, ← hds]

section Steps

variable {p : Parser} {cursor : Nat} {rest : List Char}

theorem isBuiltin_of_strictError? {site : CallSite}
    (hpolicy : p.options.unknownFunctions = .builtinsOnly) (howner : site.owner = none)
    (h : strictError? p site = none) :
    Builtin.isBuiltin (String.ofList site.member) = true := by
  unfold strictError? at h
  by_contra hname
  rw [if_pos ⟨hpolicy, howner, by simpa using hname⟩] at h
  cases h

/-- The lead of a site, and what of it belongs to a name, hold no parenthesis. -/
theorem open_not_mem_before {cut : MarkedCut} (h : nextMark? .number rest = some cut) :
    '(' ∉ cut.before := by
  intro hmem
  have hmark := (nextMark?_eq_some_iff.1 h).1 '(' hmem
  cases hmark

/-- Whatever its name, a parenthesis is passed over with all that stands in front of it. -/
theorem passOver_withList {cut : MarkedCut} (hmark : cut.mark = .paren) (list : ArgumentList) :
    passOver cut (CallSite.withList cursor cut.before cut.after list) =
      (cut.before ++ ['('], cut.after) := by
  unfold passOver
  split
  · refine congrArg (·, cut.after) ?_
    change beforeIdentifier cut.before ++ (lastIdentifier cut.before ++ ['(']) = _
    rw [← List.append_assoc, beforeIdentifier_append_lastIdentifier]
  · rw [hmark]
    rfl

/-- The candidate of a dot is passed over up to the end of its member. -/
theorem lead_append_passed_bareAtDot (cursor : Nat) (before after : List Char) :
    (CallSite.bareAtDot cursor before after).lead ++
      (CallSite.bareAtDot cursor before after).passed =
      before ++ '.' :: (CallSite.bareAtDot cursor before after).member := by
  have hjoined := beforeIdentifier_append_lastIdentifier before
  calc beforeIdentifier before ++ (lastIdentifier before ++ '.' :: _)
      = (beforeIdentifier before ++ lastIdentifier before) ++ '.' :: _ :=
        (List.append_assoc ..).symm
    _ = before ++ '.' :: _ := by rw [hjoined]

/-- A well-formed candidate has an owner in front of its dot and a name without separators behind
it. -/
theorem exists_owner_of_isWellFormed {before after : List Char}
    (h : (CallSite.bareAtDot cursor before after).isWellFormed = true) :
    (∃ front c, before = front ++ [c] ∧ isSeparator c = false) ∧
      ∀ d ∈ (CallSite.bareAtDot cursor before after).member, isSeparator d = false := by
  simp only [CallSite.isWellFormed, CallSite.bareAtDot, Bool.and_eq_true, decide_eq_true_eq,
    Bool.not_eq_true', List.any_eq_false, Bool.not_eq_true] at h
  obtain ⟨⟨howner, -⟩, hmember⟩ := h
  obtain ⟨front, c, hfront⟩ :=
    (List.eq_nil_or_concat (lastIdentifier before)).resolve_left howner
  rw [List.concat_eq_append] at hfront
  have hc : c ∈ lastIdentifier before := by simp [hfront]
  refine ⟨⟨beforeIdentifier before ++ front, c, ?_, not_isSeparator_of_mem_lastIdentifier hc⟩,
    hmember⟩
  rw [List.append_assoc, ← hfront, beforeIdentifier_append_lastIdentifier]

/-- A dot that is passed over leaves the member of an owner behind, or else is a separator
itself. -/
theorem edge_of_bareAtDot {cut : MarkedCut} {arguments : Option ArgumentList}
    {done skipped past : List Char} (hmark : cut.mark = .dot) (hbefore : '(' ∉ cut.before)
    (hpass : passOver cut { CallSite.bareAtDot cursor cut.before cut.after with
      arguments := arguments } = (skipped, past)) :
    Edge (done ++ skipped) past ∧ '(' ∉ skipped := by
  unfold passOver at hpass
  split at hpass
  next hwell =>
    obtain ⟨hskipped, hpast⟩ := Prod.mk.inj hpass
    obtain ⟨⟨front, c, hfront, hc⟩, hmember⟩ := exists_owner_of_isWellFormed hwell
    have htext := (lead_append_passed_bareAtDot cursor cut.before cut.after).symm.trans hskipped
    rw [← htext]
    constructor
    · have hdone (member : List Char) : done ++ (cut.before ++ '.' :: member) =
          (done ++ front) ++ [c, '.'] ++ member := by
        rw [hfront]
        simp
      rw [hdone]
      refine .member hc hmember ?_
      intro d hd
      have hhead := List.head?_dropWhile_not (fun c => !CallSite.endsMember c) cut.after
      change past.head? = some d at hd
      change cut.after.dropWhile (fun c => !CallSite.endsMember c) = past at hpast
      rw [hpast, hd] at hhead
      simpa using hhead
    · intro hopen
      rcases List.mem_append.1 hopen with hopen | hopen
      · exact hbefore hopen
      · rcases List.mem_cons.1 hopen with hdot | hopen
        · cases hdot
        · cases hmember '(' hopen
  next =>
    obtain ⟨rfl, rfl⟩ := Prod.mk.inj hpass
    rw [hmark]
    refine ⟨.apart _ ⟨done ++ cut.before, '.', by simp [Mark.char], rfl⟩, ?_⟩
    simpa [Mark.char] using hbefore

/-- A parenthesis of a text that is put together stands in the first part or in the second. -/
theorem split_at_open {xs ys front back : List Char} (h : xs ++ ys = front ++ '(' :: back) :
    (∃ more, xs = front ++ '(' :: more) ∨ ∃ more, front = xs ++ more ∧
    ys = more ++ '(' :: back := by
  rcases List.append_eq_append_iff.1 h with ⟨more, hfront, hys⟩ | ⟨more, hxs, hback⟩
  · exact .inr ⟨more, hfront, hys⟩
  · cases more with
    | nil => exact .inr ⟨[], by simpa using hxs.symm, by simpa using hback.symm⟩
    | cons d ds =>
      obtain ⟨rfl, -⟩ := List.cons.inj hback
      exact .inl ⟨ds, hxs⟩

/-- Where text is passed over, the scan goes on at an edge, and a parenthesis that is passed over
has an admitted name in front of it. -/
theorem edge_of_step_pass {done skipped past : List Char}
    (hpolicy : p.options.unknownFunctions = .builtinsOnly) (hedge : Edge done rest)
    (h : step p cursor rest = .pass skipped past) :
    Edge (done ++ skipped) past ∧
      ∀ front back, skipped = front ++ '(' :: back → Admits (done ++ front) := by
  have hdoes := does_step p cursor rest
  rw [h] at hdoes
  cases hdoes with
  | @pass cut site _ _ hcut hread hresolve hstrict hpass =>
    have hbefore := open_not_mem_before hcut
    cases hmark : cut.mark with
    | quote => exact absurd hmark (mark_ne_quote hcut)
    | paren =>
      rw [CallSite.read, hmark] at hread
      change CallSite.atParen cursor cut.before cut.after = .ok site at hread
      rw [CallSite.atParen_eq] at hread
      obtain ⟨list, -, rfl⟩ := exists_of_map_ok hread
      rw [passOver_withList hmark] at hpass
      obtain ⟨rfl, rfl⟩ := Prod.mk.inj hpass
      refine ⟨.apart _ ⟨done ++ cut.before, '(', by simp, rfl⟩, ?_⟩
      intro front back hfront
      rcases split_at_open hfront with ⟨more, hmore⟩ | ⟨more, rfl, hmore⟩
      · simp [hmore] at hbefore
      · obtain ⟨rfl, -⟩ : more = [] ∧ back = [] := by cases more <;> simp_all
        rw [← nextMark?_eq hcut, hmark] at hedge
        rw [List.append_nil]
        exact hedge.admits (isBuiltin_of_strictError? hpolicy rfl hstrict)
    | dot =>
      obtain ⟨arguments, rfl⟩ := CallSite.bare_of_read hmark hread
      obtain ⟨hpast, hopen⟩ := edge_of_bareAtDot hmark hbefore hpass
      refine ⟨hpast, ?_⟩
      rintro front back rfl
      simp at hopen

/-- A call is closed by its parenthesis, and none is open in front of it. -/
theorem closed_of_step_call {lead : List Char} {call : Call Origin} {list : ArgumentList}
    {signature : Signature} (h : step p cursor rest = .found lead (.ok (call, list)) signature) :
    '(' ∉ lead ∧ ∃ body, rest = lead ++ (body ++ [')']) ++ list.rest ∧
      list.closeAt + 1 = cursor + width (lead ++ (body ++ [')'])) ∧
      call.span = ⟨cursor + width lead, cursor + width (lead ++ (body ++ [')']))⟩ := by
  obtain ⟨whole, hrest, hclose, hspan, -⟩ := body_of_step_call h
  have hdoes := does_step p cursor rest
  rw [h] at hdoes
  cases hdoes with
  | @found cut site r _ hcut hread hr hplan =>
    obtain ⟨gap, inner, hsite, -, hlist⟩ :=
      (layout_of_cut hcut hread).list_eq list (CallSite.arguments_of_plan hplan)
    obtain ⟨body, rfl, -⟩ := ArgumentList.layout_of_read hlist
    have hwhole : whole = site.written ++ gap ++ '(' :: body ++ [')'] := by
      have hsame : site.lead ++ whole ++ list.rest =
          site.lead ++ (site.written ++ gap ++ '(' :: body ++ [')']) ++ list.rest := by
        rw [← hrest, hsite]
        simp
      exact List.append_cancel_left (List.append_cancel_right hsame)
    refine ⟨?_, site.written ++ gap ++ '(' :: body, ?_, ?_, ?_⟩
    · intro hopen
      rw [CallSite.lead_of_read hread] at hopen
      apply open_not_mem_before hcut
      rw [← beforeIdentifier_append_lastIdentifier cut.before]
      exact List.mem_append_left _ hopen
    · rw [← hwhole, hrest]
    · rw [← hwhole, hclose, width_append, Nat.add_assoc]
    · rw [← hwhole, hspan, width_append, Nat.add_assoc]

end Steps

/-- A scan without error has come upon every parenthesis that is in none of its calls. -/
theorem admits_of_scanFrom {p : Parser} {cursor : Nat} {pending rest done front back : List Char}
    (hpolicy : p.options.unknownFunctions = .builtinsOnly) (hedge : Edge done rest)
    (herror : (scanFrom p cursor pending rest).error = none) (hrest : rest = front ++ '(' :: back)
    (houtside : ∀ c signature, .call c signature ∈ (scanFrom p cursor pending rest).items →
      cursor + width front < c.span.start ∨ c.span.stop ≤ cursor + width front) :
    Admits (done ++ front) := by
  induction cursor, pending, rest using scan_induction (p := p) generalizing done front with
  | finish cursor pending rest h =>
    have hnone := nextMark?_eq_none_iff.1 (nextMark?_of_step_finish h) '(' (by simp [hrest])
    cases hnone
  | fail cursor pending rest e h =>
    rw [scanFrom_of_fail pending h] at herror
    cases herror
  | pass cursor pending rest skipped past h ih =>
    obtain ⟨hpast, hskipped⟩ := edge_of_step_pass hpolicy hedge h
    rw [scanFrom_of_pass pending h] at herror houtside
    rw [← append_of_step_pass h] at hrest
    rcases split_at_open hrest with ⟨more, hmore⟩ | ⟨more, rfl, hmore⟩
    · exact hskipped front more hmore
    · rw [← List.append_assoc]
      refine ih hpast herror hmore ?_
      rw [width_append, ← Nat.add_assoc] at houtside
      exact houtside
  | unplanned cursor pending rest lead e signature h =>
    rw [scanFrom_of_unplanned pending h, Scan.error_constant] at herror
    cases herror
  | call cursor pending rest lead call list signature h ih =>
    obtain ⟨hlead, body, hbody, hclose, hspan⟩ := closed_of_step_call h
    rw [scanFrom_of_call pending h] at herror houtside
    rw [Scan.items_constant] at houtside
    rw [hbody] at hrest
    rcases split_at_open hrest with ⟨more, hmore⟩ | ⟨more, rfl, hmore⟩
    · -- A parenthesis of the call itself is in its span.
      rcases split_at_open hmore with ⟨more', rfl⟩ | ⟨more', rfl, hmore'⟩
      · simp at hlead
      · have hcall := houtside call signature (by simp [Scan.cons])
        rw [hspan, hmore'] at hcall
        have hopen : 0 < Char.utf8Size '(' := Char.utf8Size_pos _
        simp only [width_append, width_cons] at hcall
        omega
    · have hapart : EndsApart (done ++ (lead ++ (body ++ [')']))) :=
        ⟨done ++ (lead ++ body), ')', by simp, rfl⟩
      rw [← List.append_assoc]
      rw [Scan.error_constant] at herror
      refine ih (.apart _ hapart) herror hmore ?_
      intro c signature' hc
      have hcall := houtside c signature' (by simp [Scan.cons, hc])
      rw [width_append] at hcall
      omega

/-- When a number expression is parsed to its end under the strict policy, every opening parenthesis
outside of the calls that the consumer was told of has no name in front of it, or the name of a math
function, or the member of an owner that stands for nothing. -/
theorem name_admitted_of_builtinsOnly {σ α : Type} {p : Parser} {text : String}
    {k : Consumer σ α}
    {s s' : σ} {front back : List Char} (hpolicy : p.options.unknownFunctions = .builtinsOnly)
    (hparsed : p.feed .number text k s = .ok () s') (htext : text.toList = front ++ '(' :: back)
    (houtside : ∀ c signature, .call c signature ∈ callbacks (p.observe .number text k s) →
      width front < c.span.start ∨ c.span.stop ≤ width front) :
    lastIdentifier front = [] ∨ String.ofList (lastIdentifier front) ∈ Builtin.mathFunctions ∨
      ∃ before c, beforeIdentifier front = before ++ [c, '.'] ∧ isSeparator c = false := by
  rw [← p.withoutLog_observe, Parser.observe, Parser.feed, Consumer.take_eq] at hparsed
  rw [Parser.observe, Parser.feed, Consumer.take_eq] at houtside
  cases hitems : k.observed.takeItems (p.scan .number text).items (s, []) with
  | error e t =>
    rw [hitems] at hparsed
    cases hparsed
  | ok _ t =>
    cases herror : (p.scan .number text).error with
    | some e =>
      rw [hitems, herror] at hparsed
      cases hparsed
    | none =>
      rw [hitems, herror] at houtside
      obtain ⟨log, hlog, htold⟩ := Consumer.told_of_takeItems hitems
      rw [List.nil_append] at hlog
      have hfront : Admits ([] ++ front) := by
        refine admits_of_scanFrom hpolicy (.start _) herror htext ?_
        intro c signature hc
        obtain ⟨arguments, hcall⟩ := htold.exists_call hc
        rw [Nat.zero_add]
        exact houtside _ signature (show _ ∈ t.2 from hlog ▸ hcall)
      cases hfront with
      | grouping h => exact .inl h
      | builtin h => exact .inr (.inl h)
      | member h hc => exact .inr (.inr ⟨_, _, h, hc⟩)

/-- A member that stands for nothing, behind a math function and a call. -/
theorem name_admitted_of_builtinsOnly_member :
    let random :=
      Catalog.Standard.function "Random" .number [Catalog.Standard.given .expression "max"]
    let p : Parser := ⟨.indexed "1.0" [random], .empty, { unknownFunctions := .builtinsOnly }⟩
    let k : Consumer EventLog Nat := EventLog.recorder 0 fun _ _ => pure 0
    let log : EventLog := [.constant 0 "sin(", .nested 0 .number "(2)",
      .call 0 ⟨.static, "Random", [.parsed .number "(2)" 0], ⟨4, 15⟩⟩ random,
      .constant 0 ")*Hero.jump(3)"]
    let front : List Char :=
      ['s', 'i', 'n', '(', 'R', 'a', 'n', 'd', 'o', 'm', '(', '(', '2', ')', ')', ')',
      '*', 'H', 'e', 'r', 'o', '.', 'j', 'u', 'm', 'p']
    p.feed .number "sin(Random((2)))*Hero.jump(3)" k [] = .ok () log ∧
      "sin(Random((2)))*Hero.jump(3)".toList = front ++ '(' :: ['3', ')'] ∧
      (∀ c signature, .call c signature ∈ callbacks
          (p.observe .number "sin(Random((2)))*Hero.jump(3)" k []) →
        width front < c.span.start ∨ c.span.stop ≤ width front) ∧
      (lastIdentifier front = [] ∨
        String.ofList (lastIdentifier front) ∈ Builtin.mathFunctions ∨
        ∃ before c, beforeIdentifier front = before ++ [c, '.'] ∧ isSeparator c = false) := by
  intro random p k log front
  have hscan : p.scan .number "sin(Random((2)))*Hero.jump(3)" = ⟨[.constant "sin(",
      .call ⟨.static, "Random", [.parsed .number "(2)" (.written 11)], ⟨4, 15⟩⟩ random,
      .constant ")*Hero.jump(3)"], none⟩ := by cbv
  have hparsed : p.feed .number "sin(Random((2)))*Hero.jump(3)" k [] = .ok () log := by
    rw [Parser.feed, hscan]
    rfl
  have htold : callbacks (p.observe .number "sin(Random((2)))*Hero.jump(3)" k []) =
      [.constant "sin(", .argument .number "(2)" (.ok 0),
        .call ⟨.static, "Random", [.parsed .number "(2)" 0], ⟨4, 15⟩⟩ random,
        .constant ")*Hero.jump(3)"] := by
    rw [Parser.observe, Parser.feed, hscan]
    rfl
  have houtside : ∀ c signature, .call c signature ∈ callbacks
      (p.observe .number "sin(Random((2)))*Hero.jump(3)" k []) →
      width front < c.span.start ∨ c.span.stop ≤ width front := by
    intro c signature hc
    simp only [htold, List.mem_cons, Callback.call.injEq, reduceCtorEq, false_or, or_false,
      List.not_mem_nil] at hc
    obtain ⟨rfl, -⟩ := hc
    exact .inr (by decide)
  exact ⟨hparsed, rfl, houtside, name_admitted_of_builtinsOnly rfl hparsed rfl houtside⟩

end SceneExpr.Grammar.Number
