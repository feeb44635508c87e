import Mathlib
import SceneExpr.Catalog.Standard
import SceneExpr.Proofs.Grammar.Whole
import SceneExpr.Proofs.Tree.Levels

namespace SceneExpr

def Fragment.withSpan (f : Fragment) (span : Span) : Fragment :=
  match f with
  | .constant text => .constant text
  | .literal value _ => .literal value span
  | .call c => .call { c with span := span }

theorem Fragment.withSpan_shift {f : Fragment} {span : Span} (h : f.segment = .token span)
    (n : Nat) :
    (f.shift n).withSpan span = f := by
  cases f with
  | constant text => rfl
  | literal value span' =>
    obtain rfl := Segment.token.inj h
    rfl
  | call c =>
    obtain rfl := Segment.token.inj h
    rfl

namespace Parser

variable {p : Parser} {kind : ValueKind} {text : String} {t : Tree}

/-- The text at the span of a call or a literal has the tree of that call or literal alone. Only the
span becomes that of the whole text; what is nested in arguments keeps its offsets. -/
theorem build_slice (h : p.build kind text = .ok t) {f : Fragment} (hf : f ∈ t.fragments)
    {span : Span} (hspan : f.segment = .token span) :
    ∃ piece : String, span.slice? text.toList = some piece.toList ∧
      p.build kind piece = .ok (.node kind [f.withSpan ⟨0, piece.utf8ByteSize⟩]) := by
  obtain ⟨nested, hbuild⟩ := p.exists_nested
  rw [hbuild] at h ⊢
  obtain ⟨fragments, rfl, -, hfragments⟩ := buildWith_eq_ok_iff.1 h
  obtain ⟨i, hi, hbuilt⟩ := exists_of_forall₂_of_mem hfragments hf
  rw [Item.segment_of_built hbuilt] at hspan
  have hreads := (p.readFrom_scan kind text).reads i hi
  obtain ⟨piece, i', hslice, hscan, hown, hmoved⟩ := hreads.exists_alone hspan
  -- The item of the slice is built like the item of the text and differs in its place only.
  rw [hmoved, Item.built_shift] at hbuilt
  obtain ⟨f', hbuilt', rfl⟩ := exists_of_shiftResult_ok hbuilt
  rw [← Item.segment_of_built hbuilt', width_ofList] at hown
  refine ⟨String.ofList piece, by rw [hslice, String.toList_ofList], ?_⟩
  rw [Fragment.withSpan_shift hown]
  exact buildWith_eq_ok_iff.2 ⟨[f'], rfl, by rw [hscan], by
    rw [hscan]; exact .cons hbuilt' .nil⟩

/-- The call behind a literal, with a blank in front of its list and a comma in its argument. -/
theorem build_slice_behind_literal :
    let p : Parser := ⟨.indexed "1.0" [
        Catalog.Standard.objectFunction "TextObject" "Text" .text
          [Catalog.Standard.given .string "suffix"]],
      .indexed [⟨"My Label", "TextObject", []⟩] [], {}⟩
    let argument : Tree := .node .text [.literal "a,b" ⟨0, 5⟩]
    let c : Call Tree :=
      ⟨.object "My Label", "Text", [.parsed .text "\"a,b\"" argument], ⟨7, 28⟩⟩
    let t : Tree := .node .text [.literal "é" ⟨0, 4⟩, .constant " + ", .call c]
    p.build .text "\"é\" + My~Label.Text (\"a,b\")" = .ok t ∧ .call c ∈ t.fragments ∧
      (Fragment.call c).segment = .token ⟨7, 28⟩ ∧
      p.build .text "My~Label.Text (\"a,b\")" =
      .ok (.node .text [.call { c with span := ⟨0, 21⟩ }]) := by
  intro p argument c t
  have ht : p.build .text "\"é\" + My~Label.Text (\"a,b\")" = .ok t := by cbv
  have hc : Fragment.call c ∈ t.fragments := by simp [t, Tree.fragments]
  have hcut : Span.slice? ⟨7, 28⟩ "\"é\" + My~Label.Text (\"a,b\")".toList =
      some "My~Label.Text (\"a,b\")".toList := by cbv
  obtain ⟨piece, hslice, hpiece⟩ := build_slice ht hc rfl
  obtain rfl := String.toList_inj.1 (Option.some.inj (hcut.symm.trans hslice))
  exact ⟨ht, hc, rfl, hpiece⟩

end Parser

end SceneExpr
