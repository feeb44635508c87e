import SceneExpr.Proofs.Catalog.Found

namespace SceneExpr

namespace Index

theorem getElem?_enter_of_ne {index : Index} {position : Nat} {functions : List Signature} {k : Key}
    (h : ∀ s ∈ functions, Key.ofSignature s ≠ k) :
    (enter index position functions)[k]? = index[k]? := by
  induction functions generalizing index position with
  | nil => rfl
  | cons s functions ih =>
    rw [enter, ih fun t ht => h t (List.mem_cons_of_mem s ht), Std.TreeMap.getElem?_insert, if_neg]
    intro heq
    exact h s List.mem_cons_self (Std.LawfulEqCmp.eq_of_compare heq)

/-- Where no key occurs twice, the index leads from each key to its entry. -/
theorem getElem?_enter {index : Index} {position : Nat} {functions : List Signature}
    (hkeys : (functions.map Key.ofSignature).Nodup) {i : Nat} {s : Signature}
    (hs : functions[i]? = some s) :
    (enter index position functions)[Key.ofSignature s]? = some (position + i) := by
  induction functions generalizing index position i with
  | nil => simp at hs
  | cons t functions ih =>
    obtain ⟨ht, hkeys⟩ := List.nodup_cons.1 hkeys
    cases i with
    | zero =>
      obtain rfl := Option.some.inj hs
      rw [enter, getElem?_enter_of_ne, Std.TreeMap.getElem?_insert_self, Nat.add_zero]
      intro u hu heq
      exact ht (List.mem_map.2 ⟨u, hu, heq⟩)
    | succ i =>
      rw [enter, ih hkeys hs]
      congr 1
      omega

end Index

theorem Signature.flaw?_eq_none_iff {s : Signature} :
    s.flaw? = none ↔ ¬s.name.toList.all isBlank = true ∧
      ¬('(' ∈ s.name.toList ∨ '.' ∈ s.name.toList ∨
        hasDoubleColon s.name.toList = true) ∧
      s.ownerFlaw? = none := by
  unfold flaw?
  dsimp only
  split
  next hblank => simp [hblank]
  next hblank =>
    split
    next hforbidden => simp [hforbidden]
    next hforbidden => exact ⟨fun howner => ⟨hblank, hforbidden, howner⟩, fun h => h.2.2⟩

namespace Catalog

variable {c : Catalog} {s : Signature}

theorem keys_of_validateFrom {index : Nat} {seen : List Key} {functions : List Signature}
    (h : validateFrom index seen functions = .ok ()) :
    (functions.map Key.ofSignature).Nodup ∧ ∀ k ∈ functions.map Key.ofSignature,
      k ∉ seen := by
  induction functions generalizing index seen with
  | nil => simp
  | cons t functions ih =>
    rw [validateFrom] at h
    split at h
    · simp at h
    next =>
      split at h
      · simp at h
      next hnew =>
        obtain ⟨hkeys, hseen⟩ := ih h
        rw [List.map_cons]
        refine ⟨List.nodup_cons.2 ⟨fun ht => hseen _ ht List.mem_cons_self, hkeys⟩, ?_⟩
        intro k hk
        rcases List.mem_cons.1 hk with rfl | hk
        · exact hnew
        · exact fun hmem => hseen k hk (List.mem_cons_of_mem _ hmem)

/-- Every entry of a valid catalog is found under its key. -/
theorem find?_of_mem (h : c.validate = .ok ()) (hs : s ∈ c.functions) :
    c.find? (Key.ofSignature s) = some s := by
  obtain ⟨i, hi⟩ := List.mem_iff_getElem?.1 hs
  rw [find?, position?, c.index_eq, Index.ofFunctions,
    Index.getElem?_enter (keys_of_validateFrom h).1 hi, Option.bind_some, Nat.zero_add, hi]

theorem find?_eq_none {k : Key} (h : ∀ s ∈ c.functions, Key.ofSignature s ≠ k) :
    c.find? k = none := by
  apply Option.eq_none_iff_forall_ne_some.2
  intro s hs
  obtain ⟨hmem, hk⟩ := mem_of_find? hs
  exact h s hmem hk

theorem hasDoubleColon_of_mem (h : c.validate = .ok ()) (hs : s ∈ c.functions) :
    Signature.hasDoubleColon s.name.toList = false := by
  obtain ⟨-, hname, -⟩ := Signature.flaw?_eq_none_iff.1 (flaw?_eq_none_of_validateFrom h hs)
  exact eq_false_of_ne_true fun hcolons => hname (.inr (.inr hcolons))

theorem owner_of_static (h : c.validate = .ok ()) (hs : s ∈ c.functions)
    (hscope : s.scope = .static) :
    s.owner = "" := by
  obtain ⟨-, -, howner⟩ := Signature.flaw?_eq_none_iff.1 (flaw?_eq_none_of_validateFrom h hs)
  rw [Signature.ownerFlaw?, hscope] at howner
  cases htype : s.ownerType with
  | none => rw [Signature.owner, htype, Option.getD_none]
  | some type =>
    rw [htype] at howner
    cases howner

/-- An entry that is visible for objects of the type: one of the type itself, or else one of every
object that no entry of the type hides. -/
def Visible (c : Catalog) (type : String) (s : Signature) : Prop :=
  s.owner = type ∨ s.owner = "" ∧ ∀ t ∈ c.functions, t.scope = .object →
    t.returns = s.returns →
    t.name = s.name → t.owner ≠ type

/-- The catalog and the scene offer the entry to those who address the target. -/
inductive Offers (c : Catalog) (scene : Scene) (s : Signature) : Target → Prop where
  | static : s.scope = .static → Offers c scene s .static
  | object {o : SceneObject} : scene.object? o.name = some o → s.scope = .object →
      c.Visible o.type s →
      Offers c scene s (.object o.name)
  | behavior {o : SceneObject} {behavior : String} : scene.object? o.name = some o →
      s.scope = .behavior →
      o.behaviorType? behavior = some s.owner → Offers c scene s (.behavior o.name behavior)

theorem object?_of_visible (h : c.validate = .ok ()) (hs : s ∈ c.functions)
    (hscope : s.scope = .object) {type : String} (hvisible : c.Visible type s) :
    c.object? s.returns type s.name = some s := by
  have hkey : Key.ofSignature s = ⟨s.returns, .object, s.owner, s.name⟩ := by
    rw [Key.ofSignature, hscope]
  have hfind := find?_of_mem h hs
  rw [hkey] at hfind
  rcases hvisible with rfl | ⟨howner, hhidden⟩
  · rw [object?, hfind]
    rfl
  · have hnone : c.find? ⟨s.returns, .object, type, s.name⟩ = none := by
      apply find?_eq_none
      intro t ht hk
      obtain ⟨hreturns, htscope, htowner, hname⟩ := Key.mk.inj hk
      exact hhidden t ht htscope hreturns hname htowner
    rw [howner] at hfind
    rw [object?, hnone, hfind]
    rfl

end Catalog

theorem Signature.hasDoubleColon_append (cs ds : List Char) :
    hasDoubleColon (cs ++ ':' :: ':' :: ds) = true := by
  induction cs with
  | nil => rfl
  | cons c cs ih =>
    rw [List.cons_append]
    unfold hasDoubleColon
    split
    next => rfl
    next heq =>
      obtain ⟨-, rfl⟩ := List.cons.inj heq
      exact ih
    next heq => cases heq

theorem Signature.hasDoubleColon_tail {c : Char} {cs : List Char}
    (h : hasDoubleColon (c :: cs) = false) :
    hasDoubleColon cs = false := by
  unfold hasDoubleColon at h
  split at h
  next => cases h
  next heq =>
    obtain ⟨-, rfl⟩ := List.cons.inj heq
    exact h
  next heq => cases heq

/-- A text in which no pair of colons starts is cut at the pair behind it. -/
theorem splitBehavior?_append {cs : List Char} (hcolons : Signature.hasDoubleColon cs = false)
    (hlast : cs.getLast? ≠ some ':') (ds : List Char) :
    splitBehavior? (cs ++ ':' :: ':' :: ds) = some (cs, ds) := by
  induction cs with
  | nil => rfl
  | cons c cs ih =>
    rw [List.cons_append]
    unfold splitBehavior?
    split
    next rest heq =>
      -- A pair that starts at `c` lies within the text, or its second colon is the first of the
      -- pair behind it.
      obtain ⟨rfl, hrest⟩ := List.cons.inj heq
      cases cs with
      | nil => exact absurd rfl hlast
      | cons d cs =>
        obtain ⟨rfl, -⟩ := List.cons.inj hrest
        cases hcolons
    next heq =>
      obtain ⟨rfl, rfl⟩ := List.cons.inj heq
      rw [ih (Signature.hasDoubleColon_tail hcolons), Option.map_some]
      intro htail
      exact hlast (by rw [List.getLast?_cons, htail]; rfl)
    next heq => cases heq

namespace Resolution

variable {catalog : Catalog} {scene : Scene} {s : Signature}

theorem static_of_mem (h : catalog.validate = .ok ()) (hs : s ∈ catalog.functions)
    (hscope : s.scope = .static) :
    static catalog s.returns s.name.toList = .ok ⟨.static, s.name, s⟩ := by
  have hfind := Catalog.find?_of_mem h hs
  rw [Key.ofSignature, hscope, Catalog.owner_of_static h hs hscope] at hfind
  simp only [static, Catalog.static?, String.ofList_toList, hfind]

theorem member_of_visible (h : catalog.validate = .ok ()) (hs : s ∈ catalog.functions)
    (hscope : s.scope = .object) {o : SceneObject} (ho : scene.object? o.name = some o)
    (hvisible : catalog.Visible o.type s) :
    member catalog scene s.returns o.name s.name.toList = .ok ⟨.object o.name, s.name, s⟩ := by
  have htype : (scene.objectType? o.name).getD "" = o.type := by simp [Scene.objectType?, ho]
  simp only [member, String.ofList_toList, htype, Catalog.object?_of_visible h hs hscope hvisible]

/-- No function of objects has two colons in its name, so a behavior is looked for. -/
theorem member_of_attached (h : catalog.validate = .ok ()) (hs : s ∈ catalog.functions)
    (hscope : s.scope = .behavior) {o : SceneObject} (ho : scene.object? o.name = some o)
    {name : String} (hattached : o.behaviorType? name = some s.owner)
    (hcolons : Signature.hasDoubleColon name.toList = false)
    (hlast : name.toList.getLast? ≠ some ':') :
    member catalog scene s.returns o.name (name.toList ++ ':' :: ':' :: s.name.toList) =
      .ok ⟨.behavior o.name name, s.name, s⟩ := by
  have hnone : catalog.object? s.returns ((scene.objectType? o.name).getD "")
      (String.ofList (name.toList ++ ':' :: ':' :: s.name.toList)) = none := by
    apply Option.eq_none_iff_forall_ne_some.2
    intro t ht
    have hlists := Catalog.lists_of_object? ht
    have hplain := Catalog.hasDoubleColon_of_mem h hlists.mem
    rw [hlists.name_eq, String.toList_ofList, Signature.hasDoubleColon_append] at hplain
    cases hplain
  have htype : scene.behaviorType? o.name name = some s.owner := by
    rw [Scene.behaviorType?, ho, Option.bind_some, hattached]
    rfl
  have hfind : catalog.behavior? s.returns s.owner s.name = some s := by
    have hfind := Catalog.find?_of_mem h hs
    rwa [Key.ofSignature, hscope] at hfind
  have hhas : scene.hasBehavior o.name name = true := by
    obtain ⟨b, hb, -⟩ := Option.map_eq_some_iff.1 hattached
    have hname : b.name = name := by simpa using List.find?_some hb
    simp only [Scene.hasBehavior, Scene.behaviorNames, ho, List.contains_iff_mem]
    exact List.mem_map.2 ⟨b, List.mem_of_find?_eq_some hb, hname⟩
  simp only [member, hnone, behavior, splitBehavior?_append hcolons hlast,
    String.ofList_toList, htype, Option.bind_some, hfind, hhas, if_true]

end Resolution

end SceneExpr
