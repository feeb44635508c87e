import Mathlib
import SceneExpr.Catalog.Standard
import SceneExpr.Proofs.Tree.Levels

namespace SceneExpr.Parser

variable {p : Parser} {kind : ValueKind} {text : String} {t : Tree}

/-- Every argument of every call in a tree has the tree of its source. -/
theorem argument_built_alone (h : p.build kind text = .ok t) {inner source : String} {u v : Tree}
    {c : Call Tree} {kind' : ValueKind} (hu : t.Holds text inner u) (hc : .call c ∈ u.fragments)
    (ha : .parsed kind' source v ∈ c.arguments) : p.build kind' source = .ok v := by
  rw [build_eq_enter] at h ⊢
  obtain ⟨levels, hlt, hbuilt⟩ := exists_lt_of_holds h hu
  have hv : p.enter levels kind' source = .ok v := (argument_of_buildWith hbuilt hc ha).1
  exact enter_mono (Nat.le_of_lt hlt) hv

/-- The text two calls deep takes all levels that the limit allows. -/
theorem argument_built_alone_at_limit :
    let p : Parser := ⟨.indexed "1.0" [
        Catalog.Standard.function "Random" .number [Catalog.Standard.given .expression "max"],
        Catalog.Standard.function "StrLength" .number [Catalog.Standard.given .string "text"]],
      .empty, { maxDepth := 2 }⟩
    let letter : Tree := .node .text [.literal "é" ⟨0, 4⟩]
    let inner : Call Tree :=
      ⟨.static, "StrLength", [.parsed .text "\"é\"" letter], ⟨0, 15⟩⟩
    let u : Tree := .node .number [.call inner]
    let outer : Call Tree :=
      ⟨.static, "Random", [.parsed .number "StrLength(\"é\")" u], ⟨2, 25⟩⟩
    let t : Tree := .node .number [.constant "2*", .call outer]
    p.build .number "2*Random(StrLength(\"é\"))" = .ok t ∧
      t.Holds "2*Random(StrLength(\"é\"))" "StrLength(\"é\")" u ∧
      .call inner ∈ u.fragments ∧
      .parsed .text "\"é\"" letter ∈ inner.arguments ∧
      p.build .text "\"é\"" = .ok letter := by
  intro p letter inner u outer t
  have ht : p.build .number "2*Random(StrLength(\"é\"))" = .ok t := by cbv
  have hu : t.Holds "2*Random(StrLength(\"é\"))" "StrLength(\"é\")" u :=
    .argument (List.mem_cons_of_mem _ List.mem_cons_self) List.mem_cons_self (.self u _)
  exact ⟨ht, hu, List.mem_cons_self, List.mem_cons_self,
    argument_built_alone ht hu List.mem_cons_self List.mem_cons_self⟩

end SceneExpr.Parser
