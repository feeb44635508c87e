import SceneExpr.Resolution
import SceneExpr.Scene.Format
import Std.Data.TreeMap.Lemmas

namespace SceneExpr

/-- Where no name occurs twice, an object is found under its name, in place of what was there
before. -/
theorem ObjectIndex.getElem?_enter_eq_some_iff {index : ObjectIndex} {os : List SceneObject}
    (honce : (os.map (·.name)).Nodup) {name : String} {o : SceneObject} :
    (enter index os)[name]? = some o ↔
      o ∈ os ∧ o.name = name ∨ name ∉ os.map (·.name) ∧ index[name]? = some o := by
  induction os generalizing index with
  | nil => simp [enter]
  | cons p os ih =>
    obtain ⟨hnew, honce⟩ := List.nodup_cons.1 honce
    rw [enter, ih honce, Std.TreeMap.getElem?_insert, List.map_cons]
    by_cases hname : p.name = name
    · subst hname
      -- The object takes the place of what was there, and no later one takes its own.
      rw [if_pos Std.ReflCmp.compare_self]
      grind
    · rw [if_neg fun heq => hname (Std.LawfulEqCmp.eq_of_compare heq)]
      grind

namespace Scene

variable {s s' : Scene}

theorem names_of_repeatedName? {seen : List String} {os : List SceneObject}
    (h : repeatedName? seen os = none) :
    (os.map (·.name)).Nodup ∧ ∀ name ∈ os.map (·.name), name ∉ seen := by
  induction os generalizing seen with
  | nil => simp
  | cons o os ih =>
    rw [repeatedName?] at h
    split at h
    · cases h
    next hnew =>
      obtain ⟨honce, hseen⟩ := ih h
      rw [List.map_cons]
      refine ⟨List.nodup_cons.2 ⟨fun ho => hseen _ ho List.mem_cons_self, honce⟩, ?_⟩
      intro name hname
      rcases List.mem_cons.1 hname with rfl | hname
      · exact hnew
      · exact fun hmem => hseen name hname (List.mem_cons_of_mem _ hmem)

theorem names_of_validate (h : s.validate = .ok ()) :
    (s.objects.map (·.name)).Nodup ∧ (s.globals.map (·.name)).Nodup := by
  unfold validate at h
  split at h
  · cases h
  · cases h
  next hobjects hglobals =>
    exact ⟨(names_of_repeatedName? hobjects).1, (names_of_repeatedName? hglobals).1⟩

/-- The objects of a valid scene are found by their names, and the global ones that they do not
hide. -/
theorem object?_eq_some_iff (hobjects : (s.objects.map (·.name)).Nodup)
    (hglobals : (s.globals.map (·.name)).Nodup) {name : String} {o : SceneObject} :
    s.object? name = some o ↔ o ∈ s.objects ∧ o.name = name ∨
      name ∉ s.objects.map (·.name) ∧ o ∈ s.globals ∧ o.name = name := by
  rw [object?, s.index_eq, ObjectIndex.ofObjects, ObjectIndex.getElem?_enter_eq_some_iff hobjects,
    ObjectIndex.getElem?_enter_eq_some_iff hglobals, Std.TreeMap.getElem?_emptyc]
  simp only [reduceCtorEq, and_false, or_false]

theorem object?_of_perm (h : s.validate = .ok ()) (hobjects : s.objects.Perm s'.objects)
    (hglobals : s.globals.Perm s'.globals) : s'.object? = s.object? := by
  obtain ⟨ho, hg⟩ := names_of_validate h
  have hnames := hobjects.map (·.name)
  funext name
  refine Option.ext fun o => ?_
  rw [object?_eq_some_iff ho hg, object?_eq_some_iff (hnames.nodup_iff.1 ho)
    ((hglobals.map (·.name)).nodup_iff.1 hg), hobjects.mem_iff, hglobals.mem_iff, hnames.mem_iff]

theorem behaviorType?_of_hasBehavior {object behavior : String}
    (h : s.hasBehavior object behavior = true) :
    s.behaviorType? object behavior = (s.object? object).bind (·.behaviorType? behavior) := by
  rw [behaviorType?]
  unfold hasBehavior behaviorNames at h
  cases ho : s.object? object with
  | none =>
    rw [ho] at h
    cases h
  | some o =>
    rw [ho] at h
    obtain ⟨b, hb, hname⟩ := List.mem_map.1 (List.contains_iff_mem.1 h)
    have hfind : (o.behaviors.find? fun b => b.name = behavior).isSome = true :=
      List.find?_isSome.2 ⟨b, hb, decide_eq_true hname⟩
    obtain ⟨b', hb'⟩ := Option.isSome_iff_exists.1 hfind
    simp [SceneObject.behaviorType?, hb']

end Scene

namespace Resolution

variable {s s' : Scene}

/-- Whatever behavior of the name is looked at, the object does not have it. -/
theorem toOption_behavior_eq_none {c : Catalog} {kind : ValueKind} {object : String}
    {name before function : List Char} (hsplit : splitBehavior? name = some (before, function))
    (h : s.hasBehavior object (String.ofList before) = false) :
    (behavior c s kind object name).toOption = none := by
  simp only [behavior, hsplit, h]
  split <;> rfl

theorem toOption_behavior_congr (h : s'.object? = s.object?) (c : Catalog) (kind : ValueKind)
    (object : String) (name : List Char) :
    (behavior c s' kind object name).toOption = (behavior c s kind object name).toOption := by
  cases hsplit : splitBehavior? name with
  | none => simp only [behavior, hsplit]
  | some p =>
    obtain ⟨before, function⟩ := p
    have hhas :
        s'.hasBehavior object (String.ofList before) =
          s.hasBehavior object (String.ofList before) := by
      simp only [Scene.hasBehavior, Scene.behaviorNames, h]
    cases hattached : s.hasBehavior object (String.ofList before) with
    | true =>
      simp only [behavior, hsplit, Scene.behaviorType?_of_hasBehavior hattached,
        Scene.behaviorType?_of_hasBehavior (hhas.trans hattached), hhas, h]
    | false =>
      rw [toOption_behavior_eq_none hsplit hattached,
        toOption_behavior_eq_none hsplit (hhas.trans hattached)]

/-- What a site stands for depends on what objects are found under their names and on nothing else
in the scene, but for what is wrong when it stands for nothing. -/
theorem toOption_find_congr (h : s'.object? = s.object?) (c : Catalog) (kind : ValueKind)
    (site : CallSite) :
    (find c s' kind site).toOption = (find c s kind site).toOption := by
  unfold find
  cases site.owner with
  | none => rfl
  | some owner =>
    dsimp only [member]
    have htype : s'.objectType? = s.objectType? := by
      funext name
      rw [Scene.objectType?, Scene.objectType?, h]
    rw [htype]
    split
    · rfl
    · exact toOption_behavior_congr h c kind _ _

end Resolution

end SceneExpr
