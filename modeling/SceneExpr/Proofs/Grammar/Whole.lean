import SceneExpr.Proofs.CallSite.Alone
import SceneExpr.Proofs.Grammar.Items

namespace SceneExpr

/-- The text is the call, from its first character through its last. -/
inductive Parser.IsCall (p : Parser) (kind : ValueKind) (text : List Char) :
    Call Origin → Signature → Prop where
  | intro {cut : MarkedCut} {site : CallSite} {r : Resolution} {c : Call Origin}
      {list : ArgumentList} :
      nextMark? kind text = some cut → cut.mark ≠ .quote → CallSite.read 0 cut = .ok site →
      site.lead = [] → site.isWellFormed = true →
      Resolution.find p.catalog p.scene kind site = .ok r → site.plan r = .ok (c, list) →
      list.rest = [] → IsCall p kind text c r.signature

namespace Grammar

variable {p : Parser} {text : List Char} {c : Call Origin} {signature : Signature}

theorem Number.scan_of_isCall (h : p.IsCall .number text c signature) :
    scan p text = ⟨[.call c signature], none⟩ := by
  obtain @⟨cut, site, r, _, list, hcut, -, hread, hlead, hwell, hfind, hplan, hrest⟩ := h
  have hresolve : resolve? p site = some r := by
    rw [resolve?, if_pos hwell, hfind]
    rfl
  have hstep := step_of_found hcut hread hresolve
  rw [hplan] at hstep
  have hfinish : step p (list.closeAt + 1) [] = .finish := rfl
  rw [scan, scanFrom_of_call [] hstep, hrest, scanFrom_of_finish [] hfinish, hlead]
  rfl

theorem Text.scan_of_isCall (h : p.IsCall .text text c signature) :
    scan p text = ⟨[.call c signature], none⟩ := by
  obtain @⟨cut, site, r, _, list, hcut, hmark, hread, hlead, hwell, hfind, hplan, hrest⟩ := h
  have hresolve : resolve p site = .ok r := by
    rw [resolve, if_pos hwell, hfind]
    rfl
  have htoken : readToken p 0 cut = .ok ⟨.call c r.signature, list.closeAt + 1, []⟩ := by
    rw [readToken, if_neg hmark, readCall]
    simp only [hread, hresolve, hplan, hrest]
  have hgap : gapOf cut = [] := by
    rw [gapOf, if_neg hmark, ← CallSite.lead_of_read hread, hlead]
  have hnone : gapError? false 0 (gapOf cut) (tokenText cut) = none := by
    rw [hgap]
    rfl
  have hsome : nextMark? .text text ≠ none := by simp [hcut]
  have hfinish : nextMark? .text [] = none := rfl
  rw [scan_of_mark hsome, scanFrom_of_token hcut hnone htoken, scanFrom_of_finish hfinish]
  rfl

theorem Text.scan_of_literal {raw : List Char} (h : Literal.cut? (raw ++ ['"']) = some (raw, [])) :
    scan p ('"' :: raw ++ ['"']) =
      ⟨[.literal (String.ofList (Literal.unescape raw)) ⟨0, width raw + 2⟩], none⟩ := by
  have hcut : nextMark? .text ('"' :: raw ++ ['"']) = some ⟨[], .quote, raw ++ ['"']⟩ := rfl
  have htoken : readToken p 0 ⟨[], .quote, raw ++ ['"']⟩ = .ok
      ⟨.literal (String.ofList (Literal.unescape raw)) ⟨0, width raw + 2⟩,
        width raw + 2, []⟩ := by
    change readLiteral 0 (raw ++ ['"']) = _
    rw [readLiteral, h]
    simp only [Nat.zero_add]
  have hsome : nextMark? .text ('"' :: raw ++ ['"']) ≠ none := Option.some_ne_none _
  have hfinish : nextMark? .text [] = none := rfl
  rw [scan_of_mark hsome, scanFrom_of_token hcut rfl htoken, scanFrom_of_finish hfinish]
  rfl

end Grammar

namespace Parser

variable {p : Parser} {kind : ValueKind} {text : List Char} {c : Call Origin}
  {signature : Signature}

theorem IsCall.scan_eq {text : String} (h : p.IsCall kind text.toList c signature) :
    p.scan kind text = ⟨[.call c signature], none⟩ := by
  cases kind with
  | number => exact Grammar.Number.scan_of_isCall h
  | text => exact Grammar.Text.scan_of_isCall h

theorem IsCall.span_eq (h : p.IsCall kind text c signature) : c.span = ⟨0, width text⟩ := by
  obtain @⟨cut, site, r, _, list, hcut, hmark, hread, hlead, -, -, hplan, hrest⟩ := h
  have hlayout := CallSite.layout_of_read hmark hread
  obtain ⟨body, hbody, hclose, -, -⟩ := hlayout.exists_body (CallSite.arguments_of_plan hplan)
  rw [nextMark?_eq hcut, hlead, hrest, List.nil_append, List.append_nil] at hbody
  have hstart : site.start = 0 := by rw [hlayout.start_eq, hlead, width_nil]
  rw [CallSite.span_of_plan hplan, hclose, hstart, Nat.zero_add, hbody]

/-- A call of a scan is the call that its own text is, further right. -/
theorem Reads.call_alone (h : p.Reads kind text (.call c signature)) :
    ∃ piece c', c.span.slice? text = some piece ∧ p.IsCall kind piece c' signature ∧
      c = c'.shift c.span.start := by
  cases h with
  | @call cursor rest cut site r _ list hrest hcut hmark hread hwell hfind hplan =>
    have hlist := CallSite.arguments_of_plan hplan
    have hstart : c.span.start = site.start := by rw [CallSite.span_of_plan hplan]
    have hlayout := CallSite.layout_of_read hmark hread
    obtain ⟨own, site', hafter, hread', hlead, hsite⟩ := CallSite.exists_alone hmark hread hlist
    have hwell' : site'.isWellFormed = true := by
      rw [hsite] at hwell
      exact hwell
    have hfind' : Resolution.find p.catalog p.scene kind site' = .ok r := by
      rw [hsite] at hfind
      exact hfind
    rw [hsite] at hplan
    obtain ⟨c', list', hplan', hc, hpast⟩ := CallSite.exists_plan_alone hplan
    -- The text was cut behind the list, so the list leaves nothing of it.
    have hnil : list'.rest = [] := List.append_left_eq_self.1 hpast.symm
    obtain ⟨hbefore, hchar, hwhole⟩ := nextMark?_eq_some_iff.1 hcut
    rw [← beforeIdentifier_append_lastIdentifier cut.before] at hbefore hwhole
    have hcut' : nextMark? kind (lastIdentifier cut.before ++ cut.mark.char :: own) =
        some ⟨lastIdentifier cut.before, cut.mark, own⟩ :=
      nextMark?_eq_some_iff.2 ⟨fun d hd => hbefore d (List.mem_append_right _ hd), hchar, rfl⟩
    have hcall : p.IsCall kind (lastIdentifier cut.before ++ cut.mark.char :: own) c' r.signature :=
      .intro hcut' hmark hread' hlead hwell' hfind' hplan' hnil
    have hspan : c.span = ⟨site.start,
        site.start + width (lastIdentifier cut.before ++ cut.mark.char :: own)⟩ := by
      rw [hc]
      change c'.span.shift site.start = _
      rw [hcall.span_eq, Span.shift, Nat.zero_add, Nat.add_comm]
    refine ⟨_, c', ?_, hcall, hstart ▸ hc⟩
    rw [hwhole, hafter, List.append_assoc] at hrest
    have hown := hrest.advance
    rw [← CallSite.lead_of_read hread, ← hlayout.start_eq, ← List.cons_append,
      ← List.append_assoc] at hown
    rw [hspan, hown.slice?]

/-- A literal of a scan stands in the text with both of its quotes, and ends where it would end by
itself. -/
theorem Reads.literal_alone {value : String} {span : Span}
    (h : p.Reads kind text (.literal value span)) :
    kind = .text ∧ ∃ raw, span.slice? text = some ('"' :: raw ++ ['"']) ∧
      Literal.cut? (raw ++ ['"']) = some (raw, []) ∧
      value = String.ofList (Literal.unescape raw) := by
  cases h with
  | @literal opened after raw past hkind hrest hcut =>
    refine ⟨hkind, raw, ?_, Literal.cut?_with_past hcut [], rfl⟩
    rw [← Literal.cut?_eq hcut] at hrest
    have hquote : Char.utf8Size '"' = 1 := rfl
    have hslice := RestAt.slice? (l := '"' :: raw ++ ['"']) (r := past) (by simpa using hrest)
    rw [← hslice]
    congr 2
    simp only [width_append, width_cons, width_nil, hquote]
    omega

/-- A call or a literal of a scan is what its own text holds, further right. -/
theorem Reads.exists_alone {i : Item} {span : Span} (h : p.Reads kind text i)
    (hspan : i.segment = .token span) :
    ∃ piece i', span.slice? text = some piece ∧
      p.scan kind (String.ofList piece) = ⟨[i'], none⟩ ∧
      i'.segment = .token ⟨0, width piece⟩ ∧ i = i'.shift span.start := by
  cases i with
  | constant t => cases hspan
  | literal value span' =>
    obtain rfl := Segment.token.inj hspan
    obtain ⟨rfl, raw, hslice, hcut, rfl⟩ := h.literal_alone
    have hwidth : width ('"' :: raw ++ ['"']) = width raw + 2 := by
      have hquote : Char.utf8Size '"' = 1 := rfl
      simp only [width_append, width_cons, width_nil, hquote]
      omega
    have hscan := Grammar.Text.scan_of_literal (p := p) hcut
    rw [← hwidth] at hscan
    refine ⟨_, .literal _ ⟨0, width ('"' :: raw ++ ['"'])⟩, hslice, ?_, rfl,
      congrArg (Item.literal _) (Span.eq_shift_of_slice? hslice)⟩
    rw [scan, String.toList_ofList]
    exact hscan
  | call c signature =>
    obtain rfl := Segment.token.inj hspan
    obtain ⟨piece, c', hslice, hcall, hc⟩ := h.call_alone
    have hcall' : p.IsCall kind (String.ofList piece).toList c' signature := by
      rwa [String.toList_ofList]
    exact ⟨piece, .call c' signature, hslice, hcall'.scan_eq,
      congrArg Segment.token hcall.span_eq, congrArg (Item.call · signature) hc⟩

end Parser

end SceneExpr
