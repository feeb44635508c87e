import SceneExpr.Proofs.Scene.Search

namespace SceneExpr

/-- The parts of a text in front of its first pair of colons and behind it. -/
structure CutAtColons (cs before after : List Char) : Prop where
  eq_append : cs = before ++ ':' :: ':' :: after
  length_le : ∀ front back, cs = front ++ ':' :: ':' :: back → before.length ≤ front.length

theorem CutAtColons.unique {cs before after before' after' : List Char}
    (h : CutAtColons cs before after) (h' : CutAtColons cs before' after') :
    before = before' ∧ after = after' := by
  have hlength : before.length = before'.length :=
    Nat.le_antisymm (h.length_le _ _ h'.eq_append) (h'.length_le _ _ h.eq_append)
  obtain ⟨hbefore, hrest⟩ := List.append_inj (h.eq_append.symm.trans h'.eq_append) hlength
  exact ⟨hbefore, by simpa using hrest⟩

theorem cutAtColons_of_splitBehavior? {cs : List Char} {p : List Char × List Char}
    (h : splitBehavior? cs = some p) : CutAtColons cs p.1 p.2 := by
  fun_induction splitBehavior? cs generalizing p with
  | case1 cs =>
    obtain rfl := Option.some.inj h
    exact ⟨rfl, fun _ _ _ => Nat.zero_le _⟩
  | case2 c cs hcolons ih =>
    obtain ⟨q, hq, rfl⟩ := Option.map_eq_some_iff.1 h
    obtain ⟨heq, hle⟩ := ih hq
    refine ⟨congrArg (c :: ·) heq, ?_⟩
    intro front back hfront
    cases front with
    | nil =>
      obtain ⟨rfl, rfl⟩ := List.cons.inj hfront
      exact absurd rfl (hcolons back rfl)
    | cons d front => exact Nat.succ_le_succ (hle front back (List.cons.inj hfront).2)
  | case3 => cases h

/-- A text with a pair of colons is cut somewhere. -/
theorem splitBehavior?_ne_none (before after : List Char) :
    splitBehavior? (before ++ ':' :: ':' :: after) ≠ none := by
  induction before with
  | nil => simp [splitBehavior?]
  | cons c before ih =>
    rw [List.cons_append]
    unfold splitBehavior?
    split
    next => simp
    next heq =>
      obtain ⟨rfl, rfl⟩ := List.cons.inj heq
      simpa using ih
    next heq => cases heq

theorem splitBehavior?_eq_some_iff {cs before after : List Char} :
    splitBehavior? cs = some (before, after) ↔ CutAtColons cs before after := by
  refine ⟨cutAtColons_of_splitBehavior?, fun h => ?_⟩
  cases hsplit : splitBehavior? cs with
  | none =>
    rw [h.eq_append] at hsplit
    exact absurd hsplit (splitBehavior?_ne_none before after)
  | some p =>
    obtain ⟨rfl, rfl⟩ := (cutAtColons_of_splitBehavior? hsplit).unique h
    rfl

namespace SceneObject

variable {o : SceneObject} {behavior : String}

def Carries (o : SceneObject) (behavior : String) : Prop := ∃ b ∈ o.behaviors, b.name = behavior

theorem behaviorType?_eq_none_iff : o.behaviorType? behavior = none ↔ ¬o.Carries behavior := by
  simp [behaviorType?, Carries]

end SceneObject

namespace Scene

variable {s : Scene} {name behavior type : String} {o : SceneObject}

/-- The object that a name stands for: the first of the name, objects of the scene before global
ones. -/
def named? (s : Scene) (name : String) : Option SceneObject :=
  (s.objects ++ s.globals).find? fun o => o.name = name

/-- The type of the object that the name stands for, and the empty type if there is none. -/
def typeNamed (s : Scene) (name : String) : String := ((s.named? name).map (·.type)).getD ""

/-- The object is the first one with a behavior of the name, objects of the scene before global
ones. -/
structure FirstCarrier (s : Scene) (behavior : String) (o : SceneObject) : Prop where
  carries : o.Carries behavior
  exists_split : ∃ front back, s.objects ++ s.globals = front ++ o :: back ∧
    ∀ p ∈ front, ¬p.Carries behavior

theorem object?_eq_named? (h : s.validate = .ok ()) : s.object? = s.named? := by
  funext name
  exact object?_eq_find? h name

theorem hasBehavior_iff (h : s.validate = .ok ()) :
    s.hasBehavior name behavior = true ↔
      ∃ o, s.named? name = some o ∧ o.Carries behavior := by
  rw [hasBehavior, behaviorNames, object?_eq_named? h]
  cases s.named? name with
  | none => simp
  | some o => simp [SceneObject.Carries]

/-- Where an object does not carry a behavior, the first carrier tells its type. -/
theorem behaviorType?_of_detached (h : s.hasBehavior name behavior = false) :
    s.behaviorType? name behavior =
      (s.objects ++ s.globals).findSome? (·.behaviorType? behavior) := by
  -- The object itself has no answer, so the search through all objects gives it.
  have hnone : (s.object? name).bind (·.behaviorType? behavior) = none := by
    rw [hasBehavior, behaviorNames] at h
    cases ho : s.object? name with
    | none => rfl
    | some o =>
      rw [ho] at h
      rw [Option.bind_some, SceneObject.behaviorType?_eq_none_iff]
      simpa [SceneObject.Carries] using h
  rw [behaviorType?, hnone, allObjects]
  rfl

theorem findSome?_behaviorType?_eq_some_iff :
    (s.objects ++ s.globals).findSome? (·.behaviorType? behavior) = some type ↔
      ∃ o, s.FirstCarrier behavior o ∧ o.behaviorType? behavior = some type := by
  rw [List.findSome?_eq_some_iff]
  constructor
  · rintro ⟨front, o, back, hsplit, htype, hfront⟩
    refine ⟨o, ⟨?_, front, back, hsplit, ?_⟩, htype⟩
    · by_contra hnot
      rw [SceneObject.behaviorType?_eq_none_iff.2 hnot] at htype
      cases htype
    · intro p hp
      exact SceneObject.behaviorType?_eq_none_iff.1 (hfront p hp)
  · rintro ⟨o, ⟨-, front, back, hsplit, hfront⟩, htype⟩
    refine ⟨front, o, back, hsplit, htype, ?_⟩
    intro p hp
    exact SceneObject.behaviorType?_eq_none_iff.2 (hfront p hp)

end Scene

namespace Catalog

variable {c : Catalog} {kind : ValueKind} {type name behavior function : String} {s : Signature}
  {o : SceneObject}

/-- The entry that objects of the type have under the name: one of the type itself, or else one of
every object. -/
inductive ObjectEntry (c : Catalog) (kind : ValueKind) (type name : String)
    (s : Signature) : Prop where
  | own : c.Lists kind .object name s → s.owner = type → ObjectEntry c kind type name s
  | base : (∀ t, c.Lists kind .object name t → t.owner ≠ type) →
      c.Lists kind .object name s →
      s.owner = "" → ObjectEntry c kind type name s

/-- The entry of the function for the type of the object's first behavior of the name. -/
def BehaviorEntry (c : Catalog) (kind : ValueKind) (o : SceneObject) (behavior function : String)
    (s : Signature) : Prop :=
  ∃ b, (o.behaviors.find? fun b => b.name = behavior) = some b ∧
    c.Lists kind .behavior function s ∧
    s.owner = b.type

theorem find?_eq_some_iff_lists (h : c.validate = .ok ()) {scope : Scope} :
    c.find? ⟨kind, scope, type, name⟩ = some s ↔
      c.Lists kind scope name s ∧ s.owner = type := by
  rw [find?_eq_some_iff h, Key.ofSignature, Key.mk.injEq]
  constructor
  · rintro ⟨hs, hreturns, hscope, howner, hname⟩
    exact ⟨⟨hs, hreturns, hscope, hname⟩, howner⟩
  · rintro ⟨⟨hs, hreturns, hscope, hname⟩, howner⟩
    exact ⟨hs, hreturns, hscope, howner, hname⟩

theorem static?_eq_some_iff (h : c.validate = .ok ()) :
    c.static? kind name = some s ↔ c.Lists kind .static name s := by
  rw [static?, find?_eq_some_iff_lists h]
  exact and_iff_left_of_imp fun hs => owner_of_static h hs.mem hs.scope_eq

theorem object?_eq_some_iff (h : c.validate = .ok ()) :
    c.object? kind type name = some s ↔ c.ObjectEntry kind type name s := by
  rw [object?, Option.orElse_eq_some, find?_eq_some_iff_lists h, find?_eq_some_iff_lists h]
  have hnone : c.find? ⟨kind, .object, type, name⟩ = none ↔
      ∀ t, c.Lists kind .object name t → t.owner ≠ type := by
    rw [Option.eq_none_iff_forall_ne_some]
    simp only [ne_eq, find?_eq_some_iff_lists h, not_and]
  rw [hnone]
  constructor
  · rintro (⟨hlists, howner⟩ | ⟨hhidden, hlists, howner⟩)
    · exact .own hlists howner
    · exact .base hhidden hlists howner
  · rintro (⟨hlists, howner⟩ | ⟨hhidden, hlists, howner⟩)
    · exact .inl ⟨hlists, howner⟩
    · exact .inr ⟨hhidden, hlists, howner⟩

theorem behaviorEntry_iff (h : c.validate = .ok ()) :
    c.BehaviorEntry kind o behavior function s ↔
      ∃ type, o.behaviorType? behavior = some type ∧
        c.behavior? kind type function = some s := by
  simp only [BehaviorEntry, SceneObject.behaviorType?, Option.map_eq_some_iff, behavior?,
    find?_eq_some_iff_lists h]
  constructor
  · rintro ⟨b, hb, hlists, howner⟩
    exact ⟨b.type, ⟨b, hb, rfl⟩, hlists, howner⟩
  · rintro ⟨_, ⟨b, hb, rfl⟩, hlists, howner⟩
    exact ⟨b, hb, hlists, howner⟩

theorem BehaviorEntry.carries (h : c.BehaviorEntry kind o behavior function s) :
    o.Carries behavior := by
  obtain ⟨b, hb, -⟩ := h
  exact ⟨b, List.mem_of_find?_eq_some hb, by simpa using List.find?_some hb⟩

/-- A behavior that is attached to the object is looked at as the object has it. -/
theorem bind_behaviorType?_of_carries (hcatalog : c.validate = .ok ()) {scene : Scene}
    (hscene : scene.validate = .ok ()) (ho : scene.named? name = some o)
    (hcarries : o.Carries behavior) :
    (scene.behaviorType? name behavior).bind (c.behavior? kind · function) = some s ↔
      c.BehaviorEntry kind o behavior function s := by
  have hhas : scene.hasBehavior name behavior = true :=
    (Scene.hasBehavior_iff hscene).2 ⟨o, ho, hcarries⟩
  rw [Scene.behaviorType?_of_hasBehavior hhas, Scene.object?_eq_named? hscene, ho, Option.bind_some,
    behaviorEntry_iff hcatalog, Option.bind_eq_some_iff]

/-- Any other behavior is looked at as its first carrier has it. -/
theorem bind_behaviorType?_of_detached (hcatalog : c.validate = .ok ()) {scene : Scene}
    (hdetached : scene.hasBehavior name behavior = false) :
    (scene.behaviorType? name behavior).bind (c.behavior? kind · function) = some s ↔
      ∃ carrier, scene.FirstCarrier behavior carrier ∧
        c.BehaviorEntry kind carrier behavior function s := by
  rw [Scene.behaviorType?_of_detached hdetached, Option.bind_eq_some_iff]
  simp only [behaviorEntry_iff hcatalog, Scene.findSome?_behaviorType?_eq_some_iff]
  constructor
  · rintro ⟨type, ⟨carrier, hfirst, htype⟩, hs⟩
    exact ⟨carrier, hfirst, type, htype, hs⟩
  · rintro ⟨carrier, hfirst, type, htype, hs⟩
    exact ⟨type, ⟨carrier, hfirst, htype⟩, hs⟩

end Catalog

namespace Resolution

variable {catalog : Catalog} {scene : Scene} {kind : ValueKind} {site : CallSite} {object : String}
  {name before after : List Char} {s : Signature} {r : Resolution}

/-- What a member of an object stands for: a function of the object, or else one of its
behaviors. -/
inductive MemberStands (catalog : Catalog) (scene : Scene) (kind : ValueKind) (object : String)
    (name : List Char) : Resolution → Prop where
  | object {s : Signature} : catalog.ObjectEntry kind (scene.typeNamed object)
      (String.ofList name) s →
      MemberStands catalog scene kind object name ⟨.object object, String.ofList name, s⟩
  | behavior {before after : List Char} {o : SceneObject} {s : Signature} :
      (∀ t, ¬catalog.ObjectEntry kind (scene.typeNamed object) (String.ofList name) t) →
      CutAtColons name before after → scene.named? object = some o →
      catalog.BehaviorEntry kind o (String.ofList before) (String.ofList after) s →
      MemberStands catalog scene kind object name
        ⟨.behavior object (String.ofList before), String.ofList after, s⟩

/-- A member that is no function of the object names a behavior which the object does not carry, and
the first carrier of that behavior has the function. -/
inductive MemberDetached (catalog : Catalog) (scene : Scene) (kind : ValueKind) (object : String)
    (name : List Char) : String → Prop where
  | intro {before after : List Char} {carrier : SceneObject} {s : Signature} :
      (∀ t, ¬catalog.ObjectEntry kind (scene.typeNamed object) (String.ofList name) t) →
      CutAtColons name before after →
      (∀ o, scene.named? object = some o → ¬o.Carries (String.ofList before)) →
      scene.FirstCarrier (String.ofList before) carrier →
      catalog.BehaviorEntry kind carrier (String.ofList before) (String.ofList after) s →
      MemberDetached catalog scene kind object name (String.ofList before)

/-- What a call site stands for. -/
inductive Stands (catalog : Catalog) (scene : Scene) (kind : ValueKind)
    (site : CallSite) : Resolution → Prop where
  | static {s : Signature} : site.owner = none →
      catalog.Lists kind .static (String.ofList site.member) s →
      Stands catalog scene kind site ⟨.static, String.ofList site.member, s⟩
  | member {owner : List Char} {r : Resolution} : site.owner = some owner →
      MemberStands catalog scene kind (String.ofList (decodeOwner owner)) site.member r →
      Stands catalog scene kind site r

/-- A call site names a behavior that is not attached to its object, in the place of a function that
exists. -/
inductive Detached (catalog : Catalog) (scene : Scene) (kind : ValueKind) (site : CallSite) :
    String → String → Prop where
  | intro {owner : List Char} {behavior : String} : site.owner = some owner →
      MemberDetached catalog scene kind (String.ofList (decodeOwner owner)) site.member behavior →
      Detached catalog scene kind site (String.ofList (decodeOwner owner)) behavior

theorem member_of_objectEntry (hcatalog : catalog.validate = .ok ())
    (hscene : scene.validate = .ok ())
    (h : catalog.ObjectEntry kind (scene.typeNamed object) (String.ofList name) s) :
    member catalog scene kind object name = .ok ⟨.object object, String.ofList name, s⟩ := by
  rw [Scene.typeNamed, ← Scene.object?_eq_named? hscene,
    ← Catalog.object?_eq_some_iff hcatalog] at h
  simp only [member, Scene.objectType?, h]

theorem member_of_no_objectEntry (hcatalog : catalog.validate = .ok ())
    (hscene : scene.validate = .ok ())
    (h : ∀ t, ¬catalog.ObjectEntry kind (scene.typeNamed object) (String.ofList name) t) :
    member catalog scene kind object name = behavior catalog scene kind object name := by
  have hnone : catalog.object? kind (scene.typeNamed object) (String.ofList name) = none := by
    apply Option.eq_none_iff_forall_ne_some.2
    intro t ht
    exact h t ((Catalog.object?_eq_some_iff hcatalog).1 ht)
  rw [Scene.typeNamed, ← Scene.object?_eq_named? hscene] at hnone
  simp only [member, Scene.objectType?, hnone]

theorem behavior_of_cut (h : CutAtColons name before after) :
    behavior catalog scene kind object name =
      match (scene.behaviorType? object (String.ofList before)).bind
        (catalog.behavior? kind · (String.ofList after)) with
      | none => .error .notFound
      | some s =>
        if scene.hasBehavior object (String.ofList before) then
          .ok ⟨.behavior object (String.ofList before), String.ofList after, s⟩
        else .error (.notAttached object (String.ofList before)) := by
  unfold behavior
  split
  next hsplit => cases hsplit.symm.trans (splitBehavior?_eq_some_iff.2 h)
  next before' after' hsplit =>
    obtain ⟨rfl, rfl⟩ := (splitBehavior?_eq_some_iff.1 hsplit).unique h
    rfl

theorem behavior_of_not_cut (h : ∀ before after, ¬CutAtColons name before after) :
    behavior catalog scene kind object name = .error .notFound := by
  unfold behavior
  split
  next => rfl
  next before after hsplit => exact absurd (splitBehavior?_eq_some_iff.1 hsplit) (h before after)

theorem behavior_eq_ok_iff (hcatalog : catalog.validate = .ok ())
    (hscene : scene.validate = .ok ()) :
    behavior catalog scene kind object name = .ok r ↔
      ∃ before after o s, CutAtColons name before after ∧
      scene.named? object = some o ∧
      catalog.BehaviorEntry kind o (String.ofList before) (String.ofList after) s ∧
      r = ⟨.behavior object (String.ofList before), String.ofList after, s⟩ := by
  constructor
  · intro h
    by_cases hcut : ∃ before after, CutAtColons name before after
    · obtain ⟨before, after, hcut⟩ := hcut
      rw [behavior_of_cut hcut] at h
      split at h
      next => cases h
      next s hs =>
        split at h
        next hhas =>
          obtain ⟨o, ho, hcarries⟩ := (Scene.hasBehavior_iff hscene).1 hhas
          rw [Catalog.bind_behaviorType?_of_carries hcatalog hscene ho hcarries] at hs
          exact ⟨before, after, o, s, hcut, ho, hs, (Except.ok.inj h).symm⟩
        next => cases h
    · rw [behavior_of_not_cut fun before after hcut' => hcut ⟨before, after, hcut'⟩] at h
      cases h
  · rintro ⟨before, after, o, s, hcut, ho, hs, rfl⟩
    have hhas := (Scene.hasBehavior_iff hscene).2 ⟨o, ho, hs.carries⟩
    rw [behavior_of_cut hcut,
      (Catalog.bind_behaviorType?_of_carries hcatalog hscene ho hs.carries).2 hs]
    dsimp only
    rw [if_pos hhas]

theorem behavior_eq_notAttached_iff (hcatalog : catalog.validate = .ok ())
    (hscene : scene.validate = .ok ()) {object' behavior' : String} :
    behavior catalog scene kind object name = .error (.notAttached object' behavior') ↔
      object' = object ∧ ∃ before after carrier s, CutAtColons name before after ∧
        (∀ o, scene.named? object = some o → ¬o.Carries (String.ofList before)) ∧
        scene.FirstCarrier (String.ofList before) carrier ∧
        catalog.BehaviorEntry kind carrier (String.ofList before) (String.ofList after) s ∧
        behavior' = String.ofList before := by
  constructor
  · intro h
    by_cases hcut : ∃ before after, CutAtColons name before after
    · obtain ⟨before, after, hcut⟩ := hcut
      rw [behavior_of_cut hcut] at h
      split at h
      next => cases h
      next s hs =>
        split at h
        next => cases h
        next hhas =>
          obtain ⟨rfl, rfl⟩ := Unresolved.notAttached.inj (Except.error.inj h)
          rw [Catalog.bind_behaviorType?_of_detached hcatalog (eq_false_of_ne_true hhas)] at hs
          obtain ⟨carrier, hfirst, hs⟩ := hs
          refine ⟨rfl, before, after, carrier, s, hcut, ?_, hfirst, hs, rfl⟩
          intro o ho hcarries
          exact hhas ((Scene.hasBehavior_iff hscene).2 ⟨o, ho, hcarries⟩)
    · rw [behavior_of_not_cut fun before after hcut' => hcut ⟨before, after, hcut'⟩] at h
      cases h
  · rintro ⟨rfl, before, after, carrier, s, hcut, hdetached, hfirst, hs, rfl⟩
    have hhas : scene.hasBehavior object' (String.ofList before) = false := by
      apply eq_false_of_ne_true
      intro hhas
      obtain ⟨o, ho, hcarries⟩ := (Scene.hasBehavior_iff hscene).1 hhas
      exact hdetached o ho hcarries
    rw [behavior_of_cut hcut,
      (Catalog.bind_behaviorType?_of_detached hcatalog hhas).2 ⟨carrier, hfirst, hs⟩]
    dsimp only
    rw [if_neg (by rw [hhas]; decide)]

theorem member_eq_ok_iff (hcatalog : catalog.validate = .ok ()) (hscene : scene.validate = .ok ()) :
    member catalog scene kind object name = .ok r ↔
      MemberStands catalog scene kind object name r := by
  by_cases hentry : ∃ t, catalog.ObjectEntry kind (scene.typeNamed object) (String.ofList name) t
  · obtain ⟨t, ht⟩ := hentry
    rw [member_of_objectEntry hcatalog hscene ht]
    constructor
    · intro h
      rw [← Except.ok.inj h]
      exact .object ht
    · intro h
      cases h with
      | object hs =>
        -- Both entries are what the member is resolved to.
        exact (member_of_objectEntry hcatalog hscene ht).symm.trans
          (member_of_objectEntry hcatalog hscene hs)
      | behavior hno => exact absurd ht (hno t)
  · have hno : ∀ t, ¬catalog.ObjectEntry kind (scene.typeNamed object) (String.ofList name) t :=
      not_exists.1 hentry
    rw [member_of_no_objectEntry hcatalog hscene hno, behavior_eq_ok_iff hcatalog hscene]
    constructor
    · rintro ⟨before, after, o, s, hcut, ho, hs, rfl⟩
      exact .behavior hno hcut ho hs
    · intro h
      cases h with
      | object hs => exact absurd hs (hno _)
      | behavior _ hcut ho hs => exact ⟨_, _, _, _, hcut, ho, hs, rfl⟩

theorem member_eq_notAttached_iff (hcatalog : catalog.validate = .ok ())
    (hscene : scene.validate = .ok ()) {object' behavior' : String} :
    member catalog scene kind object name = .error (.notAttached object' behavior') ↔
      object' = object ∧ MemberDetached catalog scene kind object name behavior' := by
  by_cases hentry : ∃ t, catalog.ObjectEntry kind (scene.typeNamed object) (String.ofList name) t
  · obtain ⟨t, ht⟩ := hentry
    rw [member_of_objectEntry hcatalog hscene ht]
    constructor
    · intro h
      cases h
    · rintro ⟨-, hno, -⟩
      exact absurd ht (hno t)
  · have hno : ∀ t, ¬catalog.ObjectEntry kind (scene.typeNamed object) (String.ofList name) t :=
      not_exists.1 hentry
    rw [member_of_no_objectEntry hcatalog hscene hno, behavior_eq_notAttached_iff hcatalog hscene]
    constructor
    · rintro ⟨rfl, before, after, carrier, s, hcut, hdetached, hfirst, hs, rfl⟩
      exact ⟨rfl, .intro hno hcut hdetached hfirst hs⟩
    · rintro ⟨rfl, h⟩
      cases h with
      | intro _ hcut hdetached hfirst hs =>
        exact ⟨rfl, _, _, _, _, hcut, hdetached, hfirst, hs, rfl⟩

theorem static_eq_ok_iff (hcatalog : catalog.validate = .ok ()) :
    static catalog kind name = .ok r ↔
      ∃ s, catalog.Lists kind .static (String.ofList name) s ∧
        r = ⟨.static, String.ofList name, s⟩ := by
  simp only [← Catalog.static?_eq_some_iff hcatalog, static]
  cases catalog.static? kind (String.ofList name) <;> simp [eq_comm]

theorem find_eq_ok_iff (hcatalog : catalog.validate = .ok ()) (hscene : scene.validate = .ok ()) :
    find catalog scene kind site = .ok r ↔ Stands catalog scene kind site r := by
  unfold find
  constructor
  · intro h
    cases howner : site.owner with
    | none =>
      rw [howner] at h
      obtain ⟨s, hs, rfl⟩ := (static_eq_ok_iff hcatalog).1 h
      exact .static howner hs
    | some owner =>
      rw [howner] at h
      exact .member howner ((member_eq_ok_iff hcatalog hscene).1 h)
  · intro h
    cases h with
    | static howner hs =>
      rw [howner]
      exact (static_eq_ok_iff hcatalog).2 ⟨_, hs, rfl⟩
    | member howner hr =>
      rw [howner]
      exact (member_eq_ok_iff hcatalog hscene).2 hr

theorem find_eq_notAttached_iff (hcatalog : catalog.validate = .ok ())
    (hscene : scene.validate = .ok ()) {behavior : String} :
    find catalog scene kind site = .error (.notAttached object behavior) ↔
      Detached catalog scene kind site object behavior := by
  unfold find
  constructor
  · intro h
    cases howner : site.owner with
    | none =>
      rw [howner] at h
      simp only [static] at h
      split at h <;> cases h
    | some owner =>
      rw [howner] at h
      obtain ⟨rfl, hdetached⟩ := (member_eq_notAttached_iff hcatalog hscene).1 h
      exact .intro howner hdetached
  · intro h
    cases h with
    | intro howner hdetached =>
      rw [howner]
      exact (member_eq_notAttached_iff hcatalog hscene).2 ⟨rfl, hdetached⟩

/-- A call site stands for a static function if it has no owner, else for a function of the type of
its object, or of every object, or of a behavior attached to the object, in this order. Where the
behavior is only attached to another object, the failure says so. -/
theorem find_follows_priority (hcatalog : catalog.validate = .ok ())
    (hscene : scene.validate = .ok ()) (site : CallSite) :
    (∀ r, find catalog scene kind site = .ok r ↔ Stands catalog scene kind site r) ∧
    (∀ object behavior, find catalog scene kind site = .error (.notAttached object behavior) ↔
      Detached catalog scene kind site object behavior) ∧
    (find catalog scene kind site = .error .notFound ↔
      (∀ r, ¬Stands catalog scene kind site r) ∧
        ∀ object behavior, ¬Detached catalog scene kind site object behavior) := by
  have hok (r : Resolution) : find catalog scene kind site = .ok r ↔
      Stands catalog scene kind site r :=
    find_eq_ok_iff hcatalog hscene
  have hdetached (object behavior : String) :
      find catalog scene kind site = .error (.notAttached object behavior) ↔
        Detached catalog scene kind site object behavior :=
    find_eq_notAttached_iff hcatalog hscene
  refine ⟨hok, hdetached, ?_⟩
  simp only [← hok, ← hdetached]
  cases find catalog scene kind site with
  | ok r => simp
  | error why => cases why <;> simp

/-- Behaviors of one name and two types: each object is asked for its own, and an object without any
for that of the first object that has one. -/
theorem find_follows_priority_shadowed :
    let speed : Signature :=
      { name := "Speed", scope := .behavior, ownerType := some "Physics", returns := .number }
    let c := Catalog.indexed "1.0" [speed]
    let s :=
      Scene.indexed [⟨"Player", "Sprite", [⟨"Move", "Physics"⟩]⟩,
        ⟨"Enemy Ship", "Sprite", []⟩]
      [⟨"Player", "Text", []⟩, ⟨"Tank", "Sprite", [⟨"Move", "Road"⟩]⟩]
    let site (owner : String) : CallSite :=
      ⟨[], 0, some owner.toList, "Move::Speed".toList, none, []⟩
    c.validate = .ok () ∧ s.validate = .ok () ∧
      Stands c s .number (site "Player") ⟨.behavior "Player" "Move", "Speed", speed⟩ ∧
      Detached c s .number (site "Enemy~Ship") "Enemy Ship" "Move" ∧
      ((∀ r, ¬Stands c s .number (site "Tank") r) ∧
        ∀ object behavior, ¬Detached c s .number (site "Tank") object behavior) := by
  intro speed c s site
  have hc : c.validate = .ok () := by decide
  have hs : s.validate = .ok () := by cbv
  have hplayer : find c s .number (site "Player") =
      .ok ⟨.behavior "Player" "Move", "Speed", speed⟩ := by
    decide +kernel
  have henemy : find c s .number (site "Enemy~Ship") =
      .error (.notAttached "Enemy Ship" "Move") := by
    decide +kernel
  have htank : find c s .number (site "Tank") = .error .notFound := by decide +kernel
  exact ⟨hc, hs, ((find_follows_priority hc hs (site "Player")).1 _).1 hplayer,
    ((find_follows_priority hc hs (site "Enemy~Ship")).2.1 _ _).1 henemy,
    (find_follows_priority hc hs (site "Tank")).2.2.1 htank⟩

end Resolution

end SceneExpr
