import SceneExpr.Command.Run
import SceneExpr.Proofs.Json.Pretty
import SceneExpr.Proofs.Json.Sorted
import SceneExpr.Proofs.LineIndex
import SceneExpr.Proofs.Tree.Dump
import SceneExpr.Proofs.Tree.Positions

namespace SceneExpr

namespace Command

end Command

theorem Context.wellSpelled_toJson (c : Context) : c.toJson.WellSpelled := by
  refine Json.wellSpelled_record fun m hm => ?_
  obtain ⟨p, -, rfl⟩ := List.mem_map.1 hm
  exact Json.wellSpelled_ofText p.2

theorem Diagnostic.wellSpelled_toJson (d : Diagnostic) : d.toJson.WellSpelled := by
  refine Json.wellSpelled_record fun m hm => ?_
  rcases List.mem_append.1 hm with hm | hm
  · rcases List.mem_append.1 hm with hm | hm
    · simp only [List.mem_cons, List.not_mem_nil, or_false] at hm
      rcases hm with rfl | rfl | rfl <;> exact Json.wellSpelled_ofText _
    · obtain ⟨s, -, hs⟩ := Option.map_eq_some_iff.1 (Json.mem_optional hm)
      exact hs ▸ s.wellSpelled_toJson
  · obtain ⟨c, -, hc⟩ := Option.map_eq_some_iff.1 (Json.mem_optional hm)
    exact hc ▸ c.wellSpelled_toJson

namespace Command

section Results

variable {p : Parser} {kind : ValueKind} {text : String}

end Results

section Words

variable {words : List String} {settings : Settings} {request : ExpressionRequest}

end Words

end Command

end SceneExpr
