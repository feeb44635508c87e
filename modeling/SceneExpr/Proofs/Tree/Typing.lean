import Mathlib
import SceneExpr.Catalog.Standard
import SceneExpr.Proofs.Catalog.Found
import SceneExpr.Proofs.Tree.Levels

namespace SceneExpr

/-- What a parameter takes as its argument; `Of kind value` tells that the parsed value is of the
kind. -/
inductive Parameter.Takes {α : Type} (Of : ValueKind → α → Prop)
    (q : Parameter) : Argument α → Prop where
  | generatorOnly : q.generatorOnly = true → Takes Of q (.raw "")
  | number {source : String} {value : α} : q.generatorOnly = false →
      q.kind ∈ [.expression, .camera] → Of .number value →
      Takes Of q (.parsed .number source value)
  | text {source : String} {value : α} : q.generatorOnly = false →
      q.kind ∈ [.string, .layer, .color, .file, .joystickAxis] → Of .text value →
      Takes Of q (.parsed .text source value)
  | raw {tag text : String} : q.generatorOnly = false → q.kind = .other tag →
      Takes Of q (.raw text)

/-- The call fits an entry of the catalog that returns the kind, and addresses an object or a
behavior if the entry has that scope. A behavior is attached to its object. -/
structure Call.Typed (catalog : Catalog) (scene : Scene) (kind : ValueKind)
    (c : Call Tree) : Prop where
  entry : ∃ s, catalog.Lists kind c.target.scope c.function s ∧
    (c.target.object?.isSome ↔ s.scope = .object ∨ s.scope = .behavior) ∧
    (c.target.behavior?.isSome ↔ s.scope = .behavior) ∧
    List.Forall₂ (Parameter.Takes fun kind' t => t.kind = kind') s.parameters c.arguments
  attached : ∀ object behavior, c.target.object? = some object →
    c.target.behavior? = some behavior →
    scene.hasBehavior object behavior = true
  function_ne_empty : c.function ≠ ""

namespace Tree

structure Typed (catalog : Catalog) (scene : Scene) (t : Tree) : Prop where
  literal : ∀ value span, .literal value span ∈ t.fragments → t.kind = .text
  call : ∀ c, .call c ∈ t.fragments → c.Typed catalog scene t.kind

end Tree

theorem Target.isSome_object?_iff (t : Target) :
    t.object?.isSome ↔ t.scope = .object ∨ t.scope = .behavior := by
  cases t <;> simp [object?, scope]

theorem Target.isSome_behavior?_iff (t : Target) : t.behavior?.isSome ↔ t.scope = .behavior := by
  cases t <;> simp [behavior?, scope]

theorem Target.eq_behavior {t : Target} {object behavior : String} (ho : t.object? = some object)
    (hb : t.behavior? = some behavior) : t = .behavior object behavior := by
  cases t <;> simp_all [object?, behavior?]

theorem Parameter.takes_argument {q : Parameter} (hvisible : q.generatorOnly = false)
    (text : List Char) (origin : Origin) : q.Takes (fun _ _ => True) (q.argument text origin) := by
  unfold argument
  cases hkind : q.kind with
  | expression | camera => exact .number hvisible (by simp [hkind]) trivial
  | string | layer | color | file | joystickAxis => exact .text hvisible (by simp [hkind]) trivial
  | other tag => exact .raw hvisible hkind

/-- Placed arguments correspond to the parameters one to one. -/
theorem Binding.takes_place (list : Span) (ps : List Parameter) (as : List RawArgument) :
    List.Forall₂ (Parameter.Takes fun _ _ => True) ps (place list ps as) := by
  fun_induction place list ps as with
  | case1 => exact .nil
  | case2 q ps as hgenerator ih => exact .cons (.generatorOnly hgenerator) ih
  | case3 q ps hvisible a as bound ih =>
    refine .cons ?_ ih
    unfold bound
    split <;> exact q.takes_argument (by simpa using hvisible) _ _
  | case4 q ps hvisible text ih => exact .cons (q.takes_argument (by simpa using hvisible) _ _) ih

theorem Parameter.Takes.built {nested : ValueKind → String → Except ParseError Tree}
    {Of : ValueKind → Tree → Prop}
    (hnested : ∀ kind source t, nested kind source = .ok t → Of kind t) {q : Parameter}
    {a : Argument Origin} {b : Argument Tree} (ha : q.Takes (fun _ _ => True) a)
    (hb : a.built nested = .ok b) : q.Takes Of b := by
  cases ha with
  | generatorOnly hgenerator =>
    obtain rfl := Except.ok.inj hb
    exact .generatorOnly hgenerator
  | @number source _ hvisible hkind =>
    obtain ⟨t, ht, rfl⟩ := Argument.exists_of_built_parsed hb
    exact .number hvisible hkind (hnested _ _ t ht)
  | @text source _ hvisible hkind =>
    obtain ⟨t, ht, rfl⟩ := Argument.exists_of_built_parsed hb
    exact .text hvisible hkind (hnested _ _ t ht)
  | raw hvisible hkind =>
    obtain rfl := Except.ok.inj hb
    exact .raw hvisible hkind

namespace Parser

variable {p : Parser} {kind : ValueKind} {text : String}

theorem Reads.takes {cs : List Char} {c : Call Origin} {s : Signature}
    (h : p.Reads kind cs (.call c s)) :
    List.Forall₂ (Parameter.Takes fun _ _ => True) s.parameters c.arguments := by
  cases h with
  | call _ _ _ _ _ _ hplan =>
    obtain ⟨-, -, -, harguments, -⟩ := CallSite.eq_of_plan hplan
    rw [harguments]
    exact Binding.takes_place _ _ _

/-- One level of a tree is typed if the trees of arguments have the kinds asked for. -/
theorem typed_of_buildWith {nested : ValueKind → String → Except ParseError Tree} {t : Tree}
    (hcatalog : p.catalog.validate = .ok ())
    (hnested : ∀ kind' source t', nested kind' source = .ok t' → t'.kind = kind')
    (h : p.buildWith nested kind text = .ok t) : t.Typed p.catalog p.scene := by
  obtain ⟨fragments, rfl, -, hfragments⟩ := buildWith_eq_ok_iff.1 h
  have hreads := (p.readFrom_scan kind text).reads
  refine ⟨?_, ?_⟩
  · intro value span hf
    obtain ⟨i, hi, hbuilt⟩ := exists_of_forall₂_of_mem hfragments hf
    obtain rfl := Item.eq_of_built_literal hbuilt
    cases hreads _ hi with
    | literal hkind => exact hkind
  · intro c hf
    obtain ⟨i, hi, hbuilt⟩ := exists_of_forall₂_of_mem hfragments hf
    obtain ⟨c', s, arguments, rfl, harguments, rfl⟩ := Item.exists_of_built_eq_call hbuilt
    have hlists := (hreads _ hi).lists
    refine ⟨⟨s, hlists, ?_, ?_, ?_⟩, ?_, ?_⟩
    · rw [hlists.scope_eq]
      exact c'.target.isSome_object?_iff
    · rw [hlists.scope_eq]
      exact c'.target.isSome_behavior?_iff
    · exact forall₂_trans (fun _ _ _ ha hb => ha.built hnested hb) (hreads _ hi).takes harguments
    · intro object behavior ho hb
      exact (hreads _ hi).attached (Target.eq_behavior ho hb)
    · rw [← hlists.name_eq]
      exact Catalog.name_ne_empty hcatalog hlists.mem

/-- All trees in a tree are typed, and the tree has the kind asked for. -/
theorem build_typed (hcatalog : p.catalog.validate = .ok ()) {t : Tree}
    (h : p.build kind text = .ok t) :
    t.kind = kind ∧ ∀ source u, t.Holds text source u → u.Typed p.catalog p.scene := by
  rw [build_eq_enter] at h
  refine ⟨kind_of_enter h, ?_⟩
  intro source u hu
  obtain ⟨levels, hbuilt⟩ := exists_of_holds h hu
  exact typed_of_buildWith hcatalog (fun _ _ _ => kind_of_enter) hbuilt

/-- A behavior of an object and a text function, one inside the other. -/
theorem build_typed_nested :
    let p : Parser := ⟨.indexed "1.0" [
        Catalog.Standard.function "ToString" .text [Catalog.Standard.given .expression "value"],
        Catalog.Standard.behaviorFunction "Platform" "MaxSpeed" .number],
      .indexed [⟨"Hero", "Sprite", [⟨"Run", "Platform"⟩]⟩] [], {}⟩
    let speed : Fragment := .call ⟨.behavior "Hero" "Run", "MaxSpeed", [], ⟨0, 20⟩⟩
    let t : Tree :=
      .node .text [.literal "v" ⟨0, 3⟩, .constant "+", .call ⟨.static, "ToString",
      [.parsed .number "Hero.Run::MaxSpeed()" (.node .number [speed])], ⟨4, 34⟩⟩]
    p.catalog.validate = .ok () ∧ p.build .text "\"v\"+ToString(Hero.Run::MaxSpeed())" = .ok t ∧
      t.kind = .text ∧ ∀ source u, t.Holds "\"v\"+ToString(Hero.Run::MaxSpeed())" source u →
        u.Typed p.catalog p.scene := by
  intro p speed t
  have hcatalog : p.catalog.validate = .ok () := rfl
  have ht : p.build .text "\"v\"+ToString(Hero.Run::MaxSpeed())" = .ok t := by cbv
  exact ⟨hcatalog, ht, build_typed hcatalog ht⟩

end Parser

end SceneExpr
