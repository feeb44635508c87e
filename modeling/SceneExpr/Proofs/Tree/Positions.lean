import Mathlib
import SceneExpr.Catalog.Standard
import SceneExpr.Proofs.Call.Place
import SceneExpr.Proofs.Grammar.Number.Coverage
import SceneExpr.Proofs.Grammar.Whole
import SceneExpr.Proofs.Octets.Parse
import SceneExpr.Proofs.Tree.Failure

namespace SceneExpr

/-- The span lies in the text, and both of its ends fall between characters. -/
structure Span.Valid (s : Span) (text : String) : Prop where
  le : s.start ≤ s.stop
  stop_le : s.stop ≤ text.utf8ByteSize
  start_isValid : String.Pos.Raw.IsValid text ⟨s.start⟩
  stop_isValid : String.Pos.Raw.IsValid text ⟨s.stop⟩

theorem isValid_of_append {text : String} {front back : List Char} {n : Nat}
    (htext : text.toList = front ++ back) (hn : width front = n) :
    String.Pos.Raw.IsValid text ⟨n⟩ := by
  refine String.Pos.Raw.isValid_iff_exists_append.2 ⟨String.ofList front,
    String.ofList back, ?_, ?_⟩
  · rw [← String.ofList_append, ← htext, String.ofList_toList]
  · rw [← hn, width_ofList]
    rfl

theorem Span.valid_of_slice? {s : Span} {text : String} {piece : List Char}
    (h : s.slice? text.toList = some piece) : s.Valid text := by
  obtain ⟨front, back, htext, hstart, hstop⟩ := slice?_eq_some_iff.1 h
  refine ⟨by omega, ?_, isValid_of_append (by rw [htext, List.append_assoc]) hstart,
    isValid_of_append htext (by rw [width_append, hstop])⟩
  rw [← width_toList, htext, width_append, width_append, hstop]
  exact Nat.le_add_right _ _

theorem Span.start_lt_stop {s : Span} {text piece : List Char} (h : s.slice? text = some piece)
    (hpiece : piece ≠ []) : s.start < s.stop := by
  obtain ⟨front, back, -, hstart, hstop⟩ := slice?_eq_some_iff.1 h
  have hwidth : 0 < width piece := by
    cases piece with
    | nil => exact absurd rfl hpiece
    | cons c piece =>
      rw [width_cons]
      exact Nat.add_pos_left c.utf8Size_pos _
  omega

theorem ParseError.span_toDiagnostic (e : ParseError) : e.toDiagnostic.span = some e.span := by
  unfold toDiagnostic Diagnostic.withContext
  split <;> rfl

def Segment.span? : Segment → Option Span
  | .constant _ => none
  | .token span => some span

theorem Segment.Tiles.le_start {n : Nat} {segments : List Segment} {cs : List Char}
    (h : Tiles n segments cs) : ∀ s ∈ segments.filterMap span?, n ≤ s.start := by
  induction h with
  | nil n => simp
  | constant cs _ ih =>
    intro s hs
    exact Nat.le_trans (Nat.le_add_right _ _) (ih s hs)
  | token cs _ ih =>
    intro s hs
    rcases List.mem_cons.1 hs with rfl | hs
    · exact Nat.le_refl _
    · exact Nat.le_trans (Nat.le_add_right _ _) (ih s hs)

/-- Tokens that lie side by side do not overlap. -/
theorem Segment.Tiles.pairwise {n : Nat} {segments : List Segment} {cs : List Char}
    (h : Tiles n segments cs) :
    (segments.filterMap span?).Pairwise fun a b => a.stop ≤ b.start := by
  induction h with
  | nil n => exact .nil
  | constant cs _ ih => exact ih
  | token cs hrest ih => exact .cons hrest.le_start ih

namespace Tree

def spans (t : Tree) : List Span := (t.fragments.map Fragment.segment).filterMap Segment.span?

/-- The literals and calls at the top level stand in the text where their spans say, and one ends
before the next starts. -/
structure Placed (text : String) (t : Tree) : Prop where
  literal : ∀ value span, .literal value span ∈ t.fragments →
    span.Valid text ∧ ∃ raw, span.slice? text.toList = some ('"' :: raw ++ ['"'])
  call : ∀ c, .call c ∈ t.fragments →
    c.span.Valid text ∧ ∃ body, c.span.slice? text.toList = some (body ++ [')'])
  apart : t.spans.Pairwise fun a b => a.start < b.start ∧ a.stop ≤ b.start

end Tree

theorem Tree.mem_spans_iff {t : Tree} {s : Span} : s ∈ t.spans ↔
    (∃ value, .literal value s ∈ t.fragments) ∨ ∃ c, .call c ∈ t.fragments ∧
    c.span = s := by
  rw [spans, List.filterMap_map, List.mem_filterMap]
  constructor
  · rintro ⟨f, hf, hs⟩
    cases f with
    | constant text => cases hs
    | literal value span =>
      obtain rfl := Option.some.inj hs
      exact .inl ⟨value, hf⟩
    | call c => exact .inr ⟨c, hf, Option.some.inj hs⟩
  · rintro (⟨value, hf⟩ | ⟨c, hf, rfl⟩)
    · exact ⟨_, hf, rfl⟩
    · exact ⟨_, hf, rfl⟩

namespace Parser

variable {p : Parser} {kind : ValueKind} {text : String}

theorem exists_tiles_scan (p : Parser) (kind : ValueKind) (text : String) :
    ∃ n cs, Segment.Tiles n ((p.scan kind text).items.map Item.segment) cs := by
  cases kind with
  | number =>
    obtain ⟨front, back, -, hcovers⟩ :=
      Grammar.Number.covers_scanFrom p [] text.toList (Nat.zero_add 0)
    exact ⟨_, _, hcovers.tiles⟩
  | text =>
    obtain ⟨lead, front, back, -, -, hcovers⟩ := Grammar.Text.covers_scan p text.toList
    exact ⟨_, _, hcovers.tiles⟩

/-- A tree that is built stands where its spans say. -/
theorem placed_of_buildWith {nested : ValueKind → String → Except ParseError Tree} {t : Tree}
    (h : p.buildWith nested kind text = .ok t) : t.Placed text := by
  have hsegments := Scan.segments_of_built (built_of_buildWith h)
  obtain ⟨fragments, rfl, -, hfragments⟩ := buildWith_eq_ok_iff.1 h
  have hreads := (p.readFrom_scan kind text).reads
  have hliteral (value : String) (span : Span) (hf : .literal value span ∈ fragments) :
      ∃ raw, span.slice? text.toList = some ('"' :: raw ++ ['"']) := by
    obtain ⟨i, hi, hbuilt⟩ := exists_of_forall₂_of_mem hfragments hf
    obtain rfl := Item.eq_of_built_literal hbuilt
    obtain ⟨-, raw, hslice, -⟩ := (hreads _ hi).literal_alone
    exact ⟨raw, hslice⟩
  have hcall (c : Call Tree) (hf : .call c ∈ fragments) :
      ∃ body, c.span.slice? text.toList = some (body ++ [')']) := by
    obtain ⟨i, hi, hbuilt⟩ := exists_of_forall₂_of_mem hfragments hf
    obtain ⟨planned, signature, arguments, rfl, -, rfl⟩ := Item.exists_of_built_eq_call hbuilt
    obtain ⟨name, written, hplace⟩ := (hreads _ hi).exists_place
    exact hplace.slice?
  refine ⟨?_, ?_, ?_⟩
  · intro value span hf
    obtain ⟨raw, hslice⟩ := hliteral value span hf
    exact ⟨Span.valid_of_slice? hslice, raw, hslice⟩
  · intro c hf
    obtain ⟨body, hslice⟩ := hcall c hf
    exact ⟨Span.valid_of_slice? hslice, body, hslice⟩
  · have hlt (s : Span) (hs : s ∈ Tree.spans (.node kind fragments)) : s.start < s.stop := by
      rcases Tree.mem_spans_iff.1 hs with ⟨value, hf⟩ | ⟨c, hf, rfl⟩
      · obtain ⟨raw, hslice⟩ := hliteral value s hf
        exact Span.start_lt_stop hslice (by simp)
      · obtain ⟨body, hslice⟩ := hcall c hf
        exact Span.start_lt_stop hslice (by simp)
    obtain ⟨n, cs, htiles⟩ := p.exists_tiles_scan kind text
    rw [← hsegments] at htiles
    refine htiles.pairwise.imp_of_mem fun ha _ hle => ⟨Nat.lt_of_lt_of_le (hlt _ ha) hle, hle⟩

/-- An error points at a part of the text, however deep it was raised. -/
theorem slice?_of_enter_error {levels : Nat} {e : ParseError}
    (h : p.enter levels kind text = .error e) :
    ∃ piece, e.span.slice? text.toList = some piece := by
  induction levels generalizing kind text e with
  | zero =>
    obtain rfl := Except.error.inj h
    exact ⟨text.toList, Span.slice?_eq_some_iff.2 ⟨[], [], by simp, rfl, Nat.zero_add _⟩⟩
  | succ levels ih =>
    rcases buildWith_eq_error_iff.1 h with
      ⟨herror, -⟩ | ⟨kind', source, origin, inner, hfirst, hnested, rfl⟩
    · exact (p.readFrom_scan kind text).slice e herror
    · obtain ⟨c, signature, name, written, hplace, ha⟩ := hfirst.exists_place
      cases hplace.supplied ha with
      | @written a ha' hsource =>
        obtain ⟨past, hrest⟩ := hplace.restAt_written ha'
        obtain ⟨piece, hpiece⟩ := ih hnested
        rw [hsource, String.toList_ofList] at hpiece
        exact ⟨piece, Span.slice?_shift hrest hpiece⟩
      | standIn => exact ⟨['('], hplace.openAt_slice?⟩

/-- Parsing never panics: no part of a text is taken that is not there or that starts or ends within
a character, and no span has its ends in the wrong order. The one error of a failed parse points
into the text. The literals and calls of a tree, at any depth, stand in the text of the tree they
belong to. -/
theorem parse_positions (p : Parser) (kind : ValueKind) (text : String) :
    Octets.parse p kind text = .ok (p.parse kind text) ∧
    ((p.parse kind text).tree = none → ∃ d s, (p.parse kind text).diagnostics = [d] ∧
      d.span = some s ∧ s.Valid text) ∧
    ∀ t, (p.parse kind text).tree = some t → ∀ source u, t.Holds text source u →
      u.Placed source := by
  refine ⟨Octets.parse_eq p kind text, ?_, ?_⟩
  · intro hnone
    unfold parse at hnone ⊢
    cases h : p.build kind text with
    | ok t =>
      rw [h] at hnone
      cases hnone
    | error e =>
      rw [build_eq_enter] at h
      obtain ⟨piece, hpiece⟩ := slice?_of_enter_error h
      exact ⟨_, e.span, rfl, e.span_toDiagnostic, Span.valid_of_slice? hpiece⟩
  · intro t ht source u hu
    unfold parse at ht
    cases h : p.build kind text with
    | error e =>
      rw [h] at ht
      cases ht
    | ok t' =>
      rw [h] at ht
      obtain rfl := Option.some.inj ht
      rw [build_eq_enter] at h
      obtain ⟨levels, hbuilt⟩ := exists_of_holds h hu
      exact placed_of_buildWith hbuilt

/-- A misplaced character of two octets, and a backslash in front of another one in an argument. -/
theorem parse_positions_outside_ascii :
    let p : Parser := ⟨.indexed "1.0" Catalog.Standard.stringFunctions, .empty, {}⟩
    let argument : Tree :=
      .node .text [.literal "\\é" ⟨0, 5⟩, .constant "+", .literal "ü" ⟨6, 10⟩]
    let t : Tree := .node .number [.call ⟨.static, "StrLength",
      [.parsed .text "\"\\é\"+\"ü\"" argument], ⟨0, 21⟩⟩]
    ((p.parse .text "\"é\" ü").tree = none ∧ ∃ d s,
      (p.parse .text "\"é\" ü").diagnostics = [d] ∧
      d.span = some s ∧ s.Valid "\"é\" ü") ∧
    (p.parse .number "StrLength(\"\\é\"+\"ü\")").tree = some t ∧
      t.Holds "StrLength(\"\\é\"+\"ü\")" "\"\\é\"+\"ü\"" argument ∧
      argument.Placed "\"\\é\"+\"ü\"" := by
  intro p argument t
  have hnone : (p.parse .text "\"é\" ü").tree = none := by cbv
  have ht : (p.parse .number "StrLength(\"\\é\"+\"ü\")").tree = some t := by cbv
  have hholds : t.Holds "StrLength(\"\\é\"+\"ü\")" "\"\\é\"+\"ü\"" argument :=
    .argument List.mem_cons_self List.mem_cons_self (.self argument _)
  obtain ⟨-, hfailed, -⟩ := parse_positions p .text "\"é\" ü"
  obtain ⟨-, -, hplaced⟩ := parse_positions p .number "StrLength(\"\\é\"+\"ü\")"
  exact ⟨⟨hnone, hfailed hnone⟩, ht, hholds, hplaced t ht _ _ hholds⟩

end Parser

end SceneExpr
