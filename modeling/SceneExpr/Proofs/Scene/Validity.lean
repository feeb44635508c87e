import SceneExpr.Proofs.Catalog.Validity
import SceneExpr.Proofs.Scene.Order

namespace SceneExpr

def SceneObject.DistinctNames (os : List SceneObject) : Prop :=
  os.Pairwise fun o p => o.name ≠ p.name

namespace Scene

open SceneObject (DistinctNames)

variable {os : List SceneObject} {o : SceneObject} {i : Nat} {name : String}

theorem repeatedName?_eq_none {seen : List String} (hnames : DistinctNames os)
    (hseen : ∀ o ∈ os, o.name ∉ seen) : repeatedName? seen os = none := by
  induction os generalizing seen with
  | nil => rfl
  | cons o os ih =>
    obtain ⟨ho, hnames⟩ := List.pairwise_cons.1 hnames
    obtain ⟨hnew, hseen⟩ := List.forall_mem_cons.1 hseen
    rw [repeatedName?, if_neg hnew]
    refine ih hnames fun p hp hmem => ?_
    rcases List.mem_cons.1 hmem with heq | hmem
    · exact ho p hp heq.symm
    · exact hseen p hp hmem

theorem repeatedName?_eq_none_iff : repeatedName? [] os = none ↔ DistinctNames os :=
  ⟨fun h => List.pairwise_map.1 (names_of_repeatedName? h).1,
    fun h => repeatedName?_eq_none h fun _ _ => List.not_mem_nil⟩

/-- Behind objects of different names, the search goes on with their names. -/
theorem repeatedName?_append {seen : List String} {front : List SceneObject}
    (h : repeatedName? seen front = none) (back : List SceneObject) :
    repeatedName? seen (front ++ back) =
      repeatedName? ((front.map (·.name)).reverse ++ seen) back := by
  induction front generalizing seen with
  | nil => rfl
  | cons o front ih =>
    rw [List.cons_append, repeatedName?]
    rw [repeatedName?] at h
    split at h
    · cases h
    next hnew => rw [if_neg hnew, ih h, List.map_cons, List.reverse_cons, List.append_assoc,
      List.singleton_append]

/-- The object whose name is the first to come again. -/
theorem repeatedName?_of_breaksAt (h : BreaksAt DistinctNames os i) (ho : os[i]? = some o) :
    repeatedName? [] os = some o.name := by
  obtain ⟨hsplit, htake⟩ := take_append_of_getElem? ho
  have hfront : DistinctNames (os.take i) := h.holds_take .nil
  rw [hsplit, repeatedName?_append (repeatedName?_eq_none_iff.2 hfront), List.append_nil,
    repeatedName?, if_pos]
  by_contra hnew
  apply h.1
  rw [htake]
  exact pairwise_ne_append_singleton hfront fun hmem => hnew (List.mem_reverse.2 hmem)

theorem repeatedName?_eq_some_iff : repeatedName? [] os = some name ↔
    ∃ i o, os[i]? = some o ∧ BreaksAt DistinctNames os i ∧ o.name = name := by
  constructor
  · intro h
    have hrepeated : ¬DistinctNames os := by
      intro hnames
      rw [repeatedName?_eq_none_iff.2 hnames] at h
      cases h
    obtain ⟨i, hi⟩ := exists_breaksAt hrepeated
    have ho := List.getElem?_eq_getElem (hi.lt_length .nil)
    rw [repeatedName?_of_breaksAt hi ho] at h
    exact ⟨i, _, ho, hi, Option.some.inj h⟩
  · rintro ⟨i, o, ho, hi, rfl⟩
    exact repeatedName?_of_breaksAt hi ho

variable {objects globals : List SceneObject} {e : SceneError}

theorem new_eq_ok_iff {s : Scene} :
    new objects globals = .ok s ↔
      (DistinctNames objects ∧ DistinctNames globals) ∧ s = indexed objects globals := by
  rw [← repeatedName?_eq_none_iff, ← repeatedName?_eq_none_iff]
  simp only [new, validate, bind, Except.bind, pure, Except.pure, indexed]
  cases repeatedName? [] objects <;> cases repeatedName? [] globals <;> simp [eq_comm]

theorem new_eq_error_iff :
    new objects globals = .error e ↔
      (∃ i o, objects[i]? = some o ∧ BreaksAt DistinctNames objects i ∧
        e = .duplicateObject .scene o.name) ∨
      DistinctNames objects ∧ ∃ i o, globals[i]? = some o ∧
      BreaksAt DistinctNames globals i ∧
        e = .duplicateObject .global o.name := by
  have hrepeated (list : SceneList) (os : List SceneObject) :
      (∃ i o, os[i]? = some o ∧ BreaksAt DistinctNames os i ∧
        e = .duplicateObject list o.name) ↔
        ∃ name, repeatedName? [] os = some name ∧ e = .duplicateObject list name := by
    simp only [repeatedName?_eq_some_iff]
    constructor
    · rintro ⟨i, o, ho, hi, rfl⟩
      exact ⟨o.name, ⟨i, o, ho, hi, rfl⟩, rfl⟩
    · rintro ⟨name, ⟨i, o, ho, hi, rfl⟩, rfl⟩
      exact ⟨i, o, ho, hi, rfl⟩
  rw [hrepeated, hrepeated, ← repeatedName?_eq_none_iff]
  simp only [new, validate, bind, Except.bind, pure, Except.pure, indexed]
  cases repeatedName? [] objects <;> cases repeatedName? [] globals <;> simp [eq_comm]

end Scene

/-- A catalog is valid exactly when its entries follow the rules, and a scene when its lists have no
name twice. Otherwise the first entry or object with which a rule is broken is reported: an entry
for its first flaw, or for its key if it has none. -/
theorem validate_reports_first :
    (∀ c : Catalog, (c.validate = .ok () ↔ Catalog.Sound c.functions) ∧
      ∀ e, c.validate = .error e ↔
      ∃ i s, c.functions[i]? = some s ∧ BreaksAt Catalog.Sound c.functions i ∧
        ((∃ flaw, s.FirstFlaw flaw ∧ e = .invalidEntry i s.name flaw) ∨
          s.WellFormed ∧
          e = .duplicateEntry ⟨s.returns, s.scope, s.ownerType.getD "", s.name⟩)) ∧
    ∀ objects globals : List SceneObject,
      (∀ s, Scene.new objects globals = .ok s ↔
        (SceneObject.DistinctNames objects ∧ SceneObject.DistinctNames globals) ∧
          s = Scene.indexed objects globals) ∧
      ∀ e, Scene.new objects globals = .error e ↔
        (∃ i o, objects[i]? = some o ∧ BreaksAt SceneObject.DistinctNames objects i ∧
          e = .duplicateObject .scene o.name) ∨
        SceneObject.DistinctNames objects ∧
          ∃ i o, globals[i]? = some o ∧ BreaksAt SceneObject.DistinctNames globals i ∧
            e = .duplicateObject .global o.name :=
  ⟨fun _ => ⟨Catalog.validate_eq_ok_iff, fun _ => Catalog.validate_eq_error_iff⟩,
    fun _ _ => ⟨fun _ => Scene.new_eq_ok_iff, fun _ => Scene.new_eq_error_iff⟩⟩

end SceneExpr
