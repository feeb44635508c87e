import Mathlib
import SceneExpr.Catalog.Standard
import SceneExpr.Proofs.Call.Place
import SceneExpr.Proofs.Consumer.Observed
import SceneExpr.Proofs.Tree.Levels

namespace SceneExpr

/-- How a call reports an error inside one of its arguments: all of it is kept but the span. That of
a written argument moves to where the argument stands, and that of a value which stands in for a
missing argument is the opening parenthesis of the call. -/
inductive Call.Reports (text : List Char) (c : Call Origin) (signature : Signature)
    (kind : ValueKind) (source : String) : Origin → ParseError → ParseError → Prop where
  | written {start : Nat} {inner : ParseError} : c.span.start < start →
      start + source.utf8ByteSize < c.span.stop →
      Span.slice? ⟨start, start + source.utf8ByteSize⟩ text = some source.toList →
      Reports text c signature kind source (.written start) inner
        { inner with span := inner.span.shift start }
  | standIn {name past : List Char} {q : Parameter} {inner : ParseError} : '(' ∉ name →
      RestAt text c.span.start (name ++ '(' :: past) →
      q ∈ signature.parameters → q.generatorOnly = false → q.kind.valueKind? = some kind →
      source = (if q.optional then q.neutralValue else "") →
      Reports text c signature kind source
        (.standIn ⟨c.span.start + width name, c.span.start + width name + 1⟩) inner
        { inner with span := ⟨c.span.start + width name, c.span.start + width name + 1⟩ }

theorem Call.Place.reports {text : List Char} {c : Call Origin} {signature : Signature}
    {name : List Char} {written : List RawArgument} (h : c.Place text signature name written)
    {kind : ValueKind} {source : String} {origin : Origin}
    (ha : .parsed kind source origin ∈ c.arguments) (inner : ParseError) :
    c.Reports text signature kind source origin inner (origin.locate inner) := by
  cases h.supplied ha with
  | @written a ha' hsource =>
    obtain ⟨past, hrest⟩ := h.restAt_written ha'
    obtain ⟨hstart, hstop⟩ := h.within_written ha'
    have hwidth : width a.text = source.utf8ByteSize := by rw [hsource, width_ofList]
    rw [hwidth] at hstop
    have hslice : Span.slice? ⟨a.start, a.start + source.utf8ByteSize⟩ text =
        some source.toList := by
      rw [← hwidth, hrest.slice?, hsource, String.toList_ofList]
    exact .written (by omega) hstop hslice
  | @standIn q hq hvisible hkind hsource =>
    obtain ⟨body, past, hrest, -⟩ := h.exists_body
    rw [List.append_assoc, List.cons_append] at hrest
    exact .standIn h.open_not_mem hrest hq hvisible hkind hsource

/-- Building a text fails with an error that was raised in the text `inner`, an argument at some
depth; `trail` tells where the arguments on the way to it come from, the outermost first. -/
inductive Parser.Blames (p : Parser) :
    Nat → ValueKind → String → List Origin → ValueKind → String →
    ParseError → Prop where
  | tooDeep (kind : ValueKind) (text : String) : Blames p 0 kind text [] kind text
      ((Fault.tooDeep p.options.maxDepth).error ⟨0, width text.toList⟩)
  | scan {levels : Nat} {kind : ValueKind} {text : String} {e : ParseError}
      {fragments : List Fragment} : (p.scan kind text).error = some e →
      (p.scan kind text).items.mapM (Item.built (p.enter levels)) = .ok fragments →
      Blames p (levels + 1) kind text [] kind text e
  | argument {levels : Nat} {kind kind' kind'' : ValueKind} {text source inner : String}
      {origin : Origin} {trail : List Origin} {e : ParseError} :
      p.FailsFirst (p.enter levels) kind text kind' source origin →
      Blames p levels kind' source trail kind'' inner e →
      Blames p (levels + 1) kind text (origin :: trail) kind'' inner e

namespace Parser

variable {p : Parser} {levels : Nat} {kind kind' : ValueKind} {text inner : String}
  {trail : List Origin} {e : ParseError}

/-- Every error is blamed on one text, and reported through all that hold it. -/
theorem enter_eq_error_iff :
    p.enter levels kind text = .error e ↔ ∃ trail kind' inner raised,
      p.Blames levels kind text trail kind' inner raised ∧
      e = trail.foldr Origin.locate raised := by
  induction levels generalizing kind text e with
  | zero =>
    constructor
    · intro h
      obtain rfl := Except.error.inj h
      exact ⟨[], kind, text, _, .tooDeep kind text, rfl⟩
    · rintro ⟨trail, kind', inner, raised, hblames, rfl⟩
      cases hblames with
      | tooDeep => rfl
  | succ levels ih =>
    rw [enter, buildWith_eq_error_iff]
    constructor
    · rintro (⟨herror, fragments, hitems⟩ | ⟨kind', source, origin, inner, hfirst,
        hnested, rfl⟩)
      · exact ⟨[], kind, text, e, .scan herror hitems, rfl⟩
      · obtain ⟨trail, kind'', inner', raised, hblames, rfl⟩ := ih.1 hnested
        exact ⟨origin :: trail, kind'', inner', raised, .argument hfirst hblames, rfl⟩
    · rintro ⟨trail, kind', inner, raised, hblames, rfl⟩
      cases hblames with
      | scan herror hitems => exact .inl ⟨herror, _, hitems⟩
      | argument hfirst hblames =>
        exact .inr ⟨_, _, _, _, hfirst, ih.2 ⟨_, _, _, _, hblames, rfl⟩, rfl⟩

theorem FailsFirst.exists_place {nested : ValueKind → String → Except ParseError Tree}
    {source : String} {origin : Origin} (h : p.FailsFirst nested kind text kind' source origin) :
    ∃ (c : Call Origin) (signature : Signature) (name : List Char) (written : List RawArgument),
      c.Place text.toList signature name written ∧
        Argument.parsed kind' source origin ∈ c.arguments := by
  cases h with
  | @intro before after c signature as bs _ _ hsplit _ harguments _ =>
    have hitem : .call c signature ∈ (p.scan kind text).items := by simp [hsplit]
    obtain ⟨name, written, hplace⟩ := ((p.readFrom_scan kind text).reads _ hitem).exists_place
    exact ⟨c, signature, name, written, hplace, by simp [harguments]⟩

/-- Through written arguments an error points at the octets at which it was raised. -/
theorem Blames.exists_slice (h : p.Blames levels kind text trail kind' inner e)
    (hwritten : ∀ o ∈ trail, ∃ start, o = .written start) :
    ∃ n past piece, RestAt text.toList n (inner.toList ++ past) ∧
      trail.foldr Origin.locate e = e.shift n ∧ e.span.slice? inner.toList = some piece := by
  induction h with
  | tooDeep kind text =>
    refine ⟨0, [], text.toList, ?_, rfl, ?_⟩
    · rw [List.append_nil]
      exact .whole _
    · exact Span.slice?_eq_some_iff.2 ⟨[], [], by simp, rfl, Nat.zero_add _⟩
  | @scan levels kind text e fragments herror hitems =>
    obtain ⟨piece, hpiece⟩ := (p.readFrom_scan kind text).slice e herror
    refine ⟨0, [], piece, ?_, rfl, hpiece⟩
    rw [List.append_nil]
    exact .whole _
  | @argument levels kind kind' kind'' text source inner origin trail e hfirst _ ih =>
    obtain ⟨n, past, piece, hinner, hlocate, hpiece⟩ :=
      ih fun o ho => hwritten o (List.mem_cons_of_mem origin ho)
    obtain ⟨start, rfl⟩ := hwritten origin List.mem_cons_self
    obtain ⟨c, signature, name, written, hplace, ha⟩ := hfirst.exists_place
    cases hplace.supplied ha with
    | @written a ha' hsource =>
      obtain ⟨past', hrest⟩ := hplace.restAt_written ha'
      rw [hsource, String.toList_ofList] at hinner
      refine ⟨a.start + n, past ++ past', piece, ?_, ?_, hpiece⟩
      · rw [← List.append_assoc]
        exact hrest.trans hinner
      · rw [List.foldr_cons, hlocate, Origin.locate, ParseError.shift_shift, Nat.add_comm]

/-- When an error comes back for an argument, the consumer is called back no more, and the run fails
with that error, reported where the argument stands. Every error of a tree is raised in one text and
reported through the calls around it; through written arguments it points at the octets at which it
was raised. -/
theorem argument_error_located (p : Parser) (kind : ValueKind) (text : String) :
    (∀ (σ α : Type) (k : Consumer σ α) (s : σ) (before after : List (Callback α))
        (kind' : ValueKind) (source : String) (e : ParseError),
      callbacks (p.observe kind text k s) = before ++ .argument kind' source (.error e) :: after →
      after = [] ∧ ∃ c signature origin reported s',
        (p.scan kind text).HandsOver before c signature kind' source origin ∧
        c.Reports text.toList signature kind' source origin e reported ∧
        p.feed kind text k s = .error reported s') ∧
    (∀ e, p.build kind text = .error e ↔ ∃ trail kind' inner raised,
      p.Blames (p.options.maxDepth + 1) kind text trail kind' inner raised ∧
      e = trail.foldr Origin.locate raised) ∧
    ∀ trail kind' inner raised,
      p.Blames (p.options.maxDepth + 1) kind text trail kind' inner raised →
      (∀ o ∈ trail, ∃ start, o = .written start) →
      ∃ n past piece, RestAt text.toList n (inner.toList ++ past) ∧
        p.build kind text = .error { raised with span := raised.span.shift n } ∧
        raised.span.slice? inner.toList = some piece ∧
        (raised.span.shift n).slice? text.toList = some piece := by
  refine ⟨?_, ?_, ?_⟩
  · intro σ α k s before after kind' source e hcallbacks
    obtain ⟨hafter, c, signature, origin, s', hhands, hobserve⟩ :=
      Parser.last_of_argument_error hcallbacks
    refine ⟨hafter, c, signature, origin, origin.locate e, s'.1, hhands, ?_, ?_⟩
    · cases hhands with
      | intro hitems harguments _ =>
        obtain ⟨name, written, hplace⟩ :=
          ((p.readFrom_scan kind text).reads (.call c signature) (by simp [hitems])).exists_place
        exact hplace.reports (by simp [harguments]) e
    · rw [← p.withoutLog_observe, hobserve]
      rfl
  · intro e
    rw [build_eq_enter]
    exact enter_eq_error_iff
  · intro trail kind' inner raised hblames hwritten
    obtain ⟨n, past, piece, hrest, hlocate, hpiece⟩ := hblames.exists_slice hwritten
    refine ⟨n, past, piece, hrest, ?_, hpiece, Span.slice?_shift hrest hpiece⟩
    rw [build_eq_enter]
    exact enter_eq_error_iff.2 ⟨trail, kind', inner, raised, hblames, hlocate.symm⟩

/-- Trailing text two calls deep is reported at its place in the whole text. -/
theorem argument_error_located_twice :
    let p : Parser :=
      ⟨.indexed "1.0" (Catalog.Standard.mathFunctions ++ Catalog.Standard.stringFunctions),
      .empty, {}⟩
    let raised := (Fault.trailingText "x").error ⟨5, 6⟩
    p.Blames 65 .number "Random(StrLength(\"é\" x))" [.written 7, .written 10] .text
        "\"é\" x" raised ∧
      ∃ n past piece,
        RestAt "Random(StrLength(\"é\" x))".toList n ("\"é\" x".toList ++ past) ∧
        p.build .number "Random(StrLength(\"é\" x))" =
          .error { raised with span := raised.span.shift n } ∧
        raised.span.slice? "\"é\" x".toList = some piece ∧
        (raised.span.shift n).slice? "Random(StrLength(\"é\" x))".toList = some piece := by
  intro p raised
  have houter : (p.scan .number "Random(StrLength(\"é\" x))").items =
      [] ++ .call
        ⟨.static, "Random", [.parsed .number "StrLength(\"é\" x)" (.written 7)], ⟨0, 25⟩⟩
        (Catalog.Standard.mathFunctions.head (by decide)) :: [] := by cbv
  have hinner : (p.scan .number "StrLength(\"é\" x)").items =
      [] ++ .call ⟨.static, "StrLength", [.parsed .text "\"é\" x" (.written 10)], ⟨0, 17⟩⟩
        (Catalog.Standard.function "StrLength" .number [Catalog.Standard.given .string "text"]) ::
          [] := by
    cbv
  have hbuilt : (p.scan .text "\"é\" x").items.mapM (Item.built (p.enter 62)) =
      .ok [.literal "é" ⟨0, 4⟩] := by cbv
  have hblames : p.Blames 65 .number "Random(StrLength(\"é\" x))" [.written 7, .written 10] .text
      "\"é\" x" raised :=
    .argument (.intro houter rfl (List.nil_append _).symm rfl)
      (.argument (.intro hinner rfl (List.nil_append _).symm rfl) (.scan (by cbv) hbuilt))
  obtain ⟨-, -, h⟩ := argument_error_located p .number "Random(StrLength(\"é\" x))"
  refine ⟨hblames, h _ _ _ _ hblames ?_⟩
  intro o ho
  rcases List.mem_cons.1 ho with rfl | ho
  · exact ⟨7, rfl⟩
  · obtain rfl := List.mem_singleton.1 ho
    exact ⟨10, rfl⟩

end Parser

end SceneExpr
