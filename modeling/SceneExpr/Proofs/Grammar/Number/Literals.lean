import Mathlib
import SceneExpr.Catalog.Standard
import SceneExpr.Proofs.Call.Place
import SceneExpr.Proofs.CallSite.Matching
import SceneExpr.Proofs.Grammar.Faults
import SceneExpr.Proofs.Grammar.Items
import SceneExpr.Proofs.Tree.Levels

namespace SceneExpr

/-- A character that is divided ends the list or is part of its text. -/
theorem Pieces.body_of_divide?_cons {depth : Nat} {c : Char} {cs : List Char} {p : Pieces}
    (hc : c ≠ '"') (h : divide? depth false (c :: cs) = some p) :
    p.body = [] ∨ ∃ depth' q, divide? depth' false cs = some q ∧ p.body = c :: q.body := by
  rw [divide?.eq_def] at h
  simp only [hc, if_false] at h
  split_ifs at h with hopen hclose hcomma
  · obtain ⟨q, hq, rfl⟩ := Option.map_eq_some_iff.1 h
    exact .inr ⟨depth + 1, q, hq, rfl⟩
  · cases depth with
    | zero =>
      obtain rfl := Option.some.inj h
      exact .inl rfl
    | succ depth =>
      obtain ⟨q, hq, rfl⟩ := Option.map_eq_some_iff.1 h
      exact .inr ⟨depth, q, hq, rfl⟩
  · obtain ⟨q, hq, rfl⟩ := Option.map_eq_some_iff.1 h
    refine .inr ⟨depth, q, hq, ?_⟩
    rw [hcomma.1]
    rfl
  · obtain ⟨q, hq, rfl⟩ := Option.map_eq_some_iff.1 h
    exact .inr ⟨depth, q, hq, rfl⟩

/-- What is divided closes its literals, unless something is escaped outside of them. -/
theorem Pieces.closed_of_divide? {depth offset : Nat} {cs : List Char} {p : Pieces}
    (h : divide? depth false cs = some p)
    (hslash : ∀ m ∈ Literal.outside offset p.body, m.2 ≠ '\\') :
    Literal.Closed p.body := by
  induction offset, cs using Literal.outside_induction generalizing depth p with
  | nil offset => cases h
  | unclosed offset cs hcut =>
    rw [divide?_quote, divide?_unclosed hcut] at h
    cases h
  | literal offset cs raw past hcut ih =>
    rw [divide?_quote, divide?_literal hcut, Option.map_map] at h
    obtain ⟨q, hq, rfl⟩ := Option.map_eq_some_iff.1 h
    have hbody : (push '"' (pushAll (raw ++ ['"']) q)).body = '"' :: (raw ++ '"' :: q.body) := by
      simp [push, pushAll, body]
    have hcut' := Literal.cut?_with_past hcut q.body
    change ∀ m ∈ Literal.outside offset (push '"' (pushAll (raw ++ ['"']) q)).body, _ at hslash
    change Literal.Closed (push '"' (pushAll (raw ++ ['"']) q)).body
    rw [hbody] at hslash ⊢
    rw [Literal.outside_literal offset hcut'] at hslash
    exact .literal hcut' (ih hq hslash)
  | cons offset c cs hc ih =>
    rcases body_of_divide?_cons hc h with hbody | ⟨depth', q, hq, hbody⟩
    · rw [hbody]
      exact .nil
    · rw [hbody, Literal.outside_cons offset hc] at hslash
      obtain ⟨hc', hslash⟩ := List.forall_mem_cons.1 hslash
      rw [hbody]
      exact .plain hc hc' (ih hq hslash)

/-- The name of a call up to its parenthesis, and the text between the parentheses. -/
def Call.Spells {α : Type} (text : List Char) (c : Call α) (name body : List Char) : Prop :=
  '(' ∉ name ∧ c.span.slice? text = some (name ++ '(' :: (body ++ [')']))

theorem Call.Spells.eq {α : Type} {text : List Char} {c : Call α}
    {name name' body body' : List Char} (h : c.Spells text name body)
    (h' : c.Spells text name' body') : name = name' ∧ body = body' := by
  obtain ⟨hname, hslice⟩ := h
  obtain ⟨hname', hslice'⟩ := h'
  have heq := Option.some.inj (hslice.symm.trans hslice')
  rcases List.append_eq_append_iff.1 heq with ⟨more, rfl, hmore⟩ | ⟨more, rfl, hmore⟩ <;>
  cases more with
  | nil => simp_all
  | cons c more => simp_all

/-- The text that is passed through, up to the error too, closes the literals that it opens, the
names of calls hold neither quotes nor backslashes, and outside the literals in the arguments of
calls there is no backslash. Then no literal is open where a call or an error starts. -/
structure Scan.ClosesLiterals (text : List Char) (s : Scan) : Prop where
  constant : ∀ t, .constant t ∈ s.items → Literal.Closed t.toList
  call : ∀ c signature name body, .call c signature ∈ s.items → c.Spells text name body →
    Literal.Unquoted name ∧ ∀ m ∈ Literal.outside 0 body, m.2 ≠ '\\'
  behind : ∀ e front gap past, s.error = some e →
    Segment.spell? text (s.items.map Item.segment) = some front →
    text = front ++ (gap ++ past) →
    width (front ++ gap) = e.span.start → Literal.Closed gap

/-- What is between the parentheses of a call has been divided. -/
theorem Parser.Reads.exists_divided {p : Parser} {kind : ValueKind} {text : List Char}
    {c : Call Origin} {signature : Signature} (h : p.Reads kind text (.call c signature)) :
    ∃ name inner q, Pieces.divide? 0 false inner = some q ∧ c.Spells text name q.body := by
  cases h with
  | @call cursor rest cut site r _ list hrest hcut hmark hread hwell hfind hplan =>
    have hlayout : site.Layout cursor rest := by
      rw [← nextMark?_eq hcut]
      exact CallSite.layout_of_read hmark hread
    obtain ⟨hlist, -, -, -, hspan⟩ := CallSite.eq_of_plan hplan
    obtain ⟨gap, inner, hlead, hgap, hlistread⟩ := hlayout.list_eq list hlist
    unfold ArgumentList.read at hlistread
    split at hlistread
    · cases hlistread
    next q hq =>
      have hclose := congrArg ArgumentList.closeAt (Except.ok.inj hlistread)
      have hbody := Pieces.separatedWidth_toList q
      have hparens : Char.utf8Size '(' = 1 ∧ Char.utf8Size ')' = 1 := ⟨rfl, rfl⟩
      refine ⟨site.written ++ gap, inner, q, hq, ?_, ?_⟩
      · intro hopen
        rcases List.mem_append.1 hopen with hopen | hopen
        · exact CallSite.open_not_mem_written hread hopen
        · exact absurd (hgap '(' hopen) (by decide)
      · have hwhole : rest = site.lead ++
            ((site.written ++ gap ++ '(' :: (q.body ++ [')'])) ++ q.rest) := by
          rw [hlead, ← Pieces.text_divide? hq, Pieces.text_eq]
          simp
        rw [hwhole] at hrest
        have hslice := hrest.advance.slice?
        rw [← hlayout.start_eq] at hslice
        have hstop : list.closeAt + 1 =
            site.start + width (site.written ++ gap ++ '(' :: (q.body ++ [')'])) := by
          simp only [width_append, width_cons, width_nil, hparens] at hclose ⊢
          omega
        rw [hspan, hstop]
        exact hslice

namespace Segment.Tiles

theorem start_eq {n : Nat} {span : Span} {xs : List Segment} {cs : List Char}
    (h : Tiles n (.token span :: xs) cs) : span.start = n := by
  cases h
  rfl

/-- Tiles that close their literals hold a text that closes its own. -/
theorem closed {n : Nat} {xs : List Segment} {cs text back : List Char} (h : Tiles n xs cs)
    (front : List Char) (hn : width front = n) (htext : text = front ++ cs ++ back)
    (hclosed : ∀ x ∈ xs, ∀ piece, x.written? text = some piece → Literal.Closed piece) :
    Literal.Closed cs := by
  induction h generalizing front with
  | nil => exact .nil
  | constant cs _ ih =>
    obtain ⟨hcs, hclosed⟩ := List.forall_mem_cons.1 hclosed
    refine .append (hcs cs ?_) (ih (front ++ cs) (by simp [hn]) (by simp [htext]) hclosed)
    rw [written?, String.toList_ofList]
  | @token n xs ds cs _ ih =>
    obtain ⟨hcs, hclosed⟩ := List.forall_mem_cons.1 hclosed
    refine .append (hcs cs ?_) (ih (front ++ cs) (by simp [hn]) (by simp [htext]) hclosed)
    exact Span.slice?_eq_some_iff.2 ⟨front, ds ++ back, by simp [htext], hn, by rw [hn]⟩

end Segment.Tiles

namespace Scan.ClosesLiterals

variable {p : Parser} {text : String}

theorem closed (h : (p.scan .number text).ClosesLiterals text.toList) {i : Item}
    (hi : i ∈ (p.scan .number text).items) {piece : List Char}
    (hpiece : i.segment.written? text.toList = some piece) : Literal.Closed piece := by
  cases i with
  | constant t =>
    obtain rfl := Option.some.inj hpiece
    exact h.constant t hi
  | literal value span =>
    have hreads := (p.readFrom_scan .number text).reads _ hi
    cases hreads with
    | literal hkind => cases hkind
  | call c signature =>
    obtain ⟨name, inner, q, hq, hspells⟩ :=
      ((p.readFrom_scan .number text).reads _ hi).exists_divided
    obtain rfl := Option.some.inj (hspells.2.symm.trans hpiece)
    obtain ⟨hname, hslash⟩ := h.call c signature name q.body hi hspells
    have hbody := Pieces.closed_of_divide? hq hslash
    have hclose : Literal.Closed [')'] := .plain (by decide) (by decide) .nil
    exact .append (.of_unquoted hname) (.plain (by decide) (by decide) (hbody.append hclose))

/-- In front of a call all literals are closed. -/
theorem exists_front_of_call (h : (p.scan .number text).ClosesLiterals text.toList)
    {c : Call Origin} {signature : Signature}
    (hc : .call c signature ∈ (p.scan .number text).items) :
    ∃ front past, text.toList = front ++ past ∧ width front = c.span.start ∧
      Literal.Closed front := by
  obtain ⟨front, back, htext, hcovers⟩ :=
    Grammar.Number.covers_scanFrom p [] text.toList (Nat.zero_add 0)
  rw [List.nil_append] at htext
  obtain ⟨before, after, hitems⟩ := List.append_of_mem hc
  have htiles : Segment.Tiles 0 ((p.scan .number text).items.map Item.segment) front :=
    hcovers.tiles
  rw [hitems, List.map_append, List.map_cons] at htiles
  obtain ⟨front, middle, rfl, hfront, hcall⟩ := htiles.split
  refine ⟨front, middle ++ back, by rw [htext, List.append_assoc], ?_, ?_⟩
  · rw [hcall.start_eq, Nat.zero_add]
  · have htext' : text.toList = [] ++ front ++ (middle ++ back) := by
      rw [htext, List.append_assoc]; rfl
    refine hfront.closed [] rfl htext' fun x hx piece hpiece => ?_
    obtain ⟨i, hi, rfl⟩ := List.mem_map.1 hx
    exact h.closed (hitems ▸ List.mem_append_left _ hi) hpiece

/-- In front of an error all literals are closed. -/
theorem exists_front_of_error (h : (p.scan .number text).ClosesLiterals text.toList)
    {e : ParseError} (he : (p.scan .number text).error = some e) {piece : List Char}
    (hslice : e.span.slice? text.toList = some piece) :
    ∃ front past, text.toList = front ++ (piece ++ past) ∧ width front = e.span.start ∧
      Literal.Closed front := by
  obtain ⟨front, back, htext, hcovers⟩ :=
    Grammar.Number.covers_scanFrom p [] text.toList (Nat.zero_add 0)
  rw [List.nil_append] at htext
  obtain ⟨before, past, hwhole, hstart, -⟩ := Span.slice?_eq_some_iff.1 hslice
  have hle : 0 + width front ≤ e.span.start := hcovers.le_start e he
  have htiles : Segment.Tiles 0 ((p.scan .number text).items.map Item.segment) front :=
    hcovers.tiles
  have hfront : Literal.Closed front := by
    refine htiles.closed [] rfl htext fun x hx piece hpiece => ?_
    obtain ⟨i, hi, rfl⟩ := List.mem_map.1 hx
    exact h.closed hi hpiece
  rw [List.append_assoc] at hwhole
  refine ⟨before, past, hwhole, hstart, ?_⟩
  -- The error lies behind what the items hold, with the rest of the text passed through in between.
  obtain ⟨gap, rfl⟩ : ∃ gap, before = front ++ gap := by
    rcases List.append_eq_append_iff.1 (htext.symm.trans hwhole)
      with ⟨gap, rfl, -⟩ | ⟨more, rfl, -⟩
    · exact ⟨gap, rfl⟩
    · cases more with
      | nil => exact ⟨[], by simp⟩
      | cons c more =>
        have hpos := c.utf8Size_pos
        rw [width_append, width_cons] at hle
        omega
  refine hfront.append
    (h.behind e front gap (piece ++ past) he (htiles.spell?_eq [] rfl htext) ?_ hstart)
  rw [hwhole, List.append_assoc]

end Scan.ClosesLiterals

namespace Grammar.Number

/-- An error of parentheses points at an opening one. -/
theorem slice?_of_unbalanced {p : Parser} {text : List Char} {cursor : Nat}
    {pending rest : List Char} (hrest : RestAt text cursor rest) {e : ParseError}
    (he : (scanFrom p cursor pending rest).error = some e)
    (hkind : e.kind = .unbalancedParentheses) : e.span.slice? text = some ['('] := by
  induction cursor, pending, rest using scan_induction (p := p) with
  | finish cursor pending rest h =>
    rw [scanFrom_of_finish pending h, Scan.error_constant] at he
    cases he
  | fail cursor pending rest e' h =>
    rw [scanFrom_of_fail pending h] at he
    obtain rfl := Option.some.inj he
    have hdoes := does_step p cursor rest
    rw [h] at hdoes
    cases hdoes with
    | unread hcut hread =>
      rw [← nextMark?_eq hcut] at hrest
      exact CallSite.slice?_of_read_error (mark_ne_quote hcut) hrest hread
    | @refused cut site _ hcut hread hr hstrict =>
      unfold strictError? at hstrict
      split at hstrict
      · obtain rfl := Option.some.inj hstrict
        cases (site.kind_unknown .notFound).symm.trans hkind
      · cases hstrict
  | pass cursor pending rest skipped past h ih =>
    rw [scanFrom_of_pass pending h] at he
    rw [← append_of_step_pass h] at hrest
    exact ih hrest.advance he
  | unplanned cursor pending rest lead e' signature h =>
    rw [scanFrom_of_unplanned pending h, Scan.error_constant] at he
    obtain rfl := Option.some.inj he
    have hdoes := does_step p cursor rest
    rw [h] at hdoes
    cases hdoes with
    | found hcut hread hr hplan => exact absurd hkind (CallSite.kind_ne_of_plan hplan)
  | call cursor pending rest lead c list signature h ih =>
    rw [scanFrom_of_call pending h, Scan.error_constant] at he
    obtain ⟨body, hbody, hclose, -⟩ := body_of_step_call h
    rw [hbody] at hrest
    have hpast := hrest.advance
    rw [width_append, ← Nat.add_assoc, ← hclose] at hpast
    exact ih hpast he

/-- If the text that is passed through closes its literals, and the calls have no quotes or
backslashes in their names and no backslashes outside the literals in their arguments, then nothing
in a literal is taken for a call, and no parenthesis in a literal is reported as open. -/
theorem apart_of_literals (p : Parser) (text : String)
    (h : (p.scan .number text).ClosesLiterals text.toList) :
    (∀ t, p.build .number text = .ok t → ∀ c ∈ t.calls, ∃ name body,
      c.Spells text.toList name body ∧
      ∀ s ∈ Literal.spans 0 text.toList, s.stop ≤ c.span.start ∨
      c.span.start + width name < s.start) ∧
    ∀ e, (p.scan .number text).error = some e → e.kind = .unbalancedParentheses →
      e.span.slice? text.toList = some ['('] ∧
      ∀ s ∈ Literal.spans 0 text.toList, s.stop ≤ e.span.start ∨
        e.span.start < s.start := by
  constructor
  · intro t ht c hc
    obtain ⟨f, hf, hcall⟩ := List.mem_filterMap.1 hc
    obtain ⟨nested, hnested⟩ := p.exists_nested
    rw [hnested] at ht
    obtain ⟨fragments, rfl, -, hfragments⟩ := Parser.buildWith_eq_ok_iff.1 ht
    obtain ⟨i, hi, hbuilt⟩ := exists_of_forall₂_of_mem hfragments hf
    cases f with
    | constant t => cases hcall
    | literal value span => cases hcall
    | call c' =>
      obtain rfl := Option.some.inj hcall
      obtain ⟨planned, signature, arguments, rfl, -, rfl⟩ := Item.exists_of_built_eq_call hbuilt
      obtain ⟨name, inner, q, hq, hspells⟩ :=
        ((p.readFrom_scan .number text).reads _ hi).exists_divided
      obtain ⟨front, past, htext, hstart, hclosed⟩ := h.exists_front_of_call hi
      obtain ⟨before, past', hwhole, hbefore, -⟩ := Span.slice?_eq_some_iff.1 hspells.2
      refine ⟨name, q.body, hspells, fun s hs => ?_⟩
      have hpast : past = name ++ '(' :: (q.body ++ ')' :: past') := by
        refine RestAt.eq ⟨front, htext, hstart⟩ ⟨before, ?_, hbefore⟩
        rw [hwhole]
        simp
      rw [htext, hpast] at hs
      have hname := (h.call planned signature name q.body hi hspells).1
      change s.stop ≤ planned.span.start ∨ planned.span.start + width name < s.start
      rw [← hstart]
      exact hclosed.apart_of_mem_spans hname (by decide) hs
  · intro e he hkind
    have hslice := slice?_of_unbalanced (RestAt.whole text.toList) he hkind
    refine ⟨hslice, fun s hs => ?_⟩
    obtain ⟨front, past, htext, hstart, hclosed⟩ := h.exists_front_of_error he hslice
    rw [htext] at hs
    rw [← hstart]
    have hnone : Literal.Unquoted [] := ⟨List.not_mem_nil, List.not_mem_nil⟩
    exact hclosed.apart_of_mem_spans hnone (by decide) hs

/-- The literals of an unknown function and of a known one do not hide the known one, and of two
open parentheses the one outside the literals is reported. -/
theorem apart_of_literals_len :
    let len := Catalog.Standard.function "Len" .number [Catalog.Standard.given .string "text"]
    let p : Parser := ⟨.indexed "1.0" [len], .empty, {}⟩
    let e := (Fault.unclosedList "").error ⟨11, 12⟩
    (p.scan .number "Foo(\"a\") + Len(\"(.\")").ClosesLiterals "Foo(\"a\") + Len(\"(.\")".toList ∧
      (p.scan .number "Len(\"(\") + (").ClosesLiterals "Len(\"(\") + (".toList ∧
      (∃ t c name body, p.build .number "Foo(\"a\") + Len(\"(.\")" = .ok t ∧ t.calls = [c] ∧
        c.Spells "Foo(\"a\") + Len(\"(.\")".toList name body ∧
        ∀ s ∈ Literal.spans 0 "Foo(\"a\") + Len(\"(.\")".toList,
          s.stop ≤ c.span.start ∨ c.span.start + width name < s.start) ∧
      p.build .number "Len(\"(\") + (" = .error e ∧
      e.span.slice? "Len(\"(\") + (".toList = some ['('] ∧
      ∀ s ∈ Literal.spans 0 "Len(\"(\") + (".toList,
        s.stop ≤ e.span.start ∨ e.span.start < s.start := by
  intro len p e
  have hscan : p.scan .number "Foo(\"a\") + Len(\"(.\")" =
      ⟨[.constant "Foo(\"a\") + ",
        .call ⟨.static, "Len", [.parsed .text "\"(.\"" (.written 15)], ⟨11, 20⟩⟩ len],
        none⟩ := by cbv
  have hbuild : p.build .number "Foo(\"a\") + Len(\"(.\")" =
      .ok (.node .number [.constant "Foo(\"a\") + ",
        .call ⟨.static, "Len", [.parsed .text "\"(.\"" (.node .text [.literal "(." ⟨0, 4⟩])],
          ⟨11, 20⟩⟩]) := by cbv
  have hfail : p.scan .number "Len(\"(\") + (" =
      ⟨[.call ⟨.static, "Len", [.parsed .text "\"(\"" (.written 4)], ⟨0, 8⟩⟩ len],
        some e⟩ := by cbv
  have hfoo : (p.scan .number "Foo(\"a\") + Len(\"(.\")").ClosesLiterals
      "Foo(\"a\") + Len(\"(.\")".toList := by
    rw [hscan]
    constructor
    · intro t ht
      obtain rfl : t = "Foo(\"a\") + " := by simpa using ht
      have hopen : Literal.Closed "Foo(".toList := .of_unquoted ⟨by decide, by decide⟩
      have hrest : Literal.Closed ") + ".toList := .of_unquoted ⟨by decide, by decide⟩
      have hcut : Literal.cut? "a\") + ".toList = some (['a'], ") + ".toList) := rfl
      exact hopen.append (.literal hcut hrest)
    · intro c signature name body hc hspells
      obtain ⟨rfl, rfl⟩ : c = _ ∧ signature = _ := by simpa using hc
      obtain ⟨rfl, rfl⟩ := hspells.eq
        (show Call.Spells _ _ "Len".toList "\"(.\"".toList from ⟨by decide, by cbv⟩)
      have hnone : Literal.outside 0 "\"(.\"".toList = [] := by cbv
      exact ⟨⟨by decide, by decide⟩, by rw [hnone]; exact List.forall_mem_nil _⟩
    · intro e front gap past he
      cases he
  have hlen : (p.scan .number "Len(\"(\") + (").ClosesLiterals "Len(\"(\") + (".toList := by
    rw [hfail]
    constructor
    · intro t ht
      simp at ht
    · intro c signature name body hc hspells
      obtain ⟨rfl, rfl⟩ : c = _ ∧ signature = _ := by simpa using hc
      obtain ⟨rfl, rfl⟩ := hspells.eq
        (show Call.Spells _ _ "Len".toList "\"(\"".toList from ⟨by decide, by cbv⟩)
      have hnone : Literal.outside 0 "\"(\"".toList = [] := by cbv
      exact ⟨⟨by decide, by decide⟩, by rw [hnone]; exact List.forall_mem_nil _⟩
    · intro e' front gap past he hfront htext hwidth
      obtain rfl := Option.some.inj he
      have hspelt : Segment.spell? "Len(\"(\") + (".toList [.token ⟨0, 8⟩] =
          some "Len(\"(\")".toList := by cbv
      obtain rfl := Option.some.inj (hspelt.symm.trans hfront)
      have hsplit : ("Len(\"(\")".toList ++ gap) ++ past =
          ("Len(\"(\")".toList ++ " + ".toList) ++ ['('] := by
        rw [List.append_assoc, ← htext]
        rfl
      obtain rfl := List.append_cancel_left (append_inj_width hsplit hwidth).1
      exact .of_unquoted ⟨by decide, by decide⟩
  obtain ⟨name, body, hspells, hapart⟩ := (apart_of_literals p _ hfoo).1 _ hbuild _ (.head [])
  obtain ⟨hslice, hspans⟩ := (apart_of_literals p _ hlen).2 e (by rw [hfail]) rfl
  exact ⟨hfoo, hlen, ⟨_, _, name, body, hbuild, rfl, hspells, hapart⟩, by
    cbv, hslice, hspans⟩

/-- A literal that the text passed through leaves open may hold a parenthesis that is reported as
open, or text that is taken for a call. -/
theorem not_apart_of_literals :
    let random :=
      Catalog.Standard.function "Random" .number [Catalog.Standard.given .expression "max"]
    let p : Parser := ⟨.indexed "1.0" [random], .empty, {}⟩
    let e := (Fault.unclosedList "\"").error ⟨5, 6⟩
    (p.build .number "Foo(\"(\")" = .error e ∧ (p.scan .number "Foo(\"(\")").error = some e ∧
      e.kind = .unbalancedParentheses ∧
      ¬ ∀ s ∈ Literal.spans 0 "Foo(\"(\")".toList,
        s.stop ≤ e.span.start ∨ e.span.start < s.start) ∧
    ∃ t c, p.build .number "Foo(\" Random(1)\")" = .ok t ∧ t.calls = [c] ∧
      ¬ ∀ s ∈ Literal.spans 0 "Foo(\" Random(1)\")".toList,
        s.stop ≤ c.span.start ∨ c.span.start < s.start := by
  intro random p e
  have herror : Literal.spans 0 "Foo(\"(\")".toList = [⟨4, 7⟩] := by cbv
  have hcall : Literal.spans 0 "Foo(\" Random(1)\")".toList = [⟨4, 16⟩] := by cbv
  have ht : p.build .number "Foo(\" Random(1)\")" = .ok (.node .number [.constant "Foo(\" ",
      .call ⟨.static, "Random", [.parsed .number "1" (.node .number [.constant "1"])],
        ⟨6, 15⟩⟩,
      .constant "\")"]) := by cbv
  refine ⟨⟨by cbv, by cbv, rfl, ?_⟩, _, _, ht, rfl, ?_⟩
  · rw [herror]
    decide
  · rw [hcall]
    decide

end Grammar.Number

end SceneExpr
