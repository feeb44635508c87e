import SceneExpr.Proofs.Json.Pretty
import SceneExpr.Proofs.Json.Record
import SceneExpr.Tree.Format

namespace SceneExpr

/-- Lists are known from their images if each member of one of them is. -/
theorem map_inj_of_mem {α β : Type} {f : α → β} {as bs : List α}
    (hf : ∀ a ∈ as, ∀ b, f a = f b → a = b) (h : as.map f = bs.map f) : as = bs := by
  induction as generalizing bs with
  | nil => exact (List.map_eq_nil_iff.1 h.symm).symm
  | cons a as ih =>
    obtain ⟨b, bs, rfl, hb, hbs⟩ := List.map_eq_cons_iff.1 h.symm
    obtain ⟨ha, has⟩ := List.forall_mem_cons.1 hf
    rw [ha b hb.symm, ih has hbs.symm]

namespace Json

theorem record_inj {ms ns : List (String × Json)} (h : record ms = record ns) : ms = ns := by
  refine List.map_injective_iff.2 ?_ (Json.object.inj h)
  rintro ⟨k, v⟩ ⟨k', v'⟩ hmember
  obtain ⟨hkey, hvalue⟩ := Prod.mk.inj hmember
  exact Prod.ext (String.toList_inj.1 (escape_inj hkey)) hvalue

/-- Members under known keys are known from those that are present. -/
theorem present_inj {slots slots' : List (String × Option Json)}
    (hkeys : slots.map (·.1) = slots'.map (·.1)) (honce : (slots.map (·.1)).Nodup)
    (h : present slots = present slots') : slots = slots' := by
  induction slots generalizing slots' with
  | nil => exact (List.map_eq_nil_iff.1 hkeys.symm).symm
  | cons s slots ih =>
    obtain ⟨key, value⟩ := s
    cases slots' with
    | nil => cases hkeys
    | cons s' slots' =>
      obtain ⟨key', value'⟩ := s'
      obtain ⟨hkey, hmore⟩ := List.cons.inj hkeys
      obtain rfl : key = key' := hkey
      have honce' : (((key, value') :: slots').map (·.1)).Nodup := hkeys ▸ honce
      have hlookup := congrArg (List.lookup key) h
      rw [lookup_present honce, lookup_present honce', List.lookup_cons_self,
        List.lookup_cons_self] at hlookup
      obtain rfl : value = value' := hlookup
      rw [ih hmore (List.nodup_cons.1 honce).2 (List.append_cancel_left h)]

theorem map_ofText_inj {s t : Option String} (h : s.map ofText = t.map ofText) : s = t :=
  Option.map_injective (fun _ _ => ofText_inj) h

end Json

theorem ValueKind.tag_inj {k k' : ValueKind} (h : k.tag = k'.tag) : k = k' := by
  have htag := ValueKind.ofTag?_tag k
  rw [h, ValueKind.ofTag?_tag] at htag
  exact (Option.some.inj htag).symm

theorem Scope.tag_inj {s s' : Scope} (h : s.tag = s'.tag) : s = s' := by
  have htag := Scope.ofTag?_tag s
  rw [h, Scope.ofTag?_tag] at htag
  exact (Option.some.inj htag).symm

theorem Span.toJson_inj {s s' : Span} (h : s.toJson = s'.toJson) : s = s' := by
  have hmembers := Json.record_inj h
  simp only [List.cons.injEq, Prod.mk.injEq, true_and, and_true] at hmembers
  obtain ⟨hstart, hstop⟩ := hmembers
  cases s
  cases s'
  rw [Span.mk.injEq]
  exact ⟨Json.ofNat_inj hstart, Json.ofNat_inj hstop⟩

theorem Span.wellSpelled_toJson (s : Span) : s.toJson.WellSpelled :=
  Json.wellSpelled_record (by simp [Json.wellSpelled_ofNat])

theorem Target.scope_object?_behavior?_inj {t t' : Target} (hscope : t.scope = t'.scope)
    (hobject : t.object? = t'.object?) (hbehavior : t.behavior? = t'.behavior?) : t = t' := by
  cases t <;> cases t' <;> simp_all [Target.scope, Target.object?, Target.behavior?]

theorem Tree.argumentTag_inj {k k' : ValueKind} (h : argumentTag k = argumentTag k') : k = k' := by
  cases k <;> cases k' <;> first | rfl | exact absurd h (by decide)

theorem Tree.argumentTag_ne_raw (k : ValueKind) : argumentTag k ≠ "raw" := by
  cases k <;> decide

/-- The tree was parsed from an argument of the fragment. -/
inductive LooseFragment.Nests : LooseFragment → LooseTree → Prop where
  | intro {c : LooseCall LooseTree} {kind : ValueKind} {source : String} {t : LooseTree} :
      .parsed kind source t ∈ c.arguments → Nests (.call c) t

theorem LooseFragment.Nests.sizeOf_lt {f : LooseFragment} {t : LooseTree} (h : f.Nests t) :
    sizeOf t < sizeOf f := by
  obtain @⟨c, kind, source, t, hmem⟩ := h
  have hargument := List.sizeOf_lt_of_mem hmem
  cases c
  simp only [Argument.parsed.sizeOf_spec, call.sizeOf_spec, LooseCall.mk.sizeOf_spec] at *
  omega

namespace LooseTree

/-- Induction over the trees of arguments. -/
@[elab_as_elim]
theorem induction {motive : LooseTree → Prop}
    (node : ∀ kind fragments, (∀ f ∈ fragments, ∀ t, f.Nests t → motive t) →
      motive (.node kind fragments)) : ∀ t, motive t
  | .node kind fragments => node kind fragments fun _ hf t ht =>
    have hsmaller : sizeOf t < 1 + sizeOf kind + sizeOf fragments := by
      have hfragment := List.sizeOf_lt_of_mem hf
      have hargument := ht.sizeOf_lt
      omega
    induction node t
termination_by t => sizeOf t

theorem fragmentsToJson_eq_map (fs : List LooseFragment) :
    fragmentsToJson fs = fs.map fragmentToJson := by
  induction fs with
  | nil => rfl
  | cons f fs ih => rw [fragmentsToJson, ih, List.map_cons]

theorem argumentsToJson_eq_map (as : List (Argument LooseTree)) :
    argumentsToJson as = as.map argumentToJson := by
  induction as with
  | nil => rfl
  | cons a as ih => rw [argumentsToJson, ih, List.map_cons]

def callSlots (c : LooseCall LooseTree) : List (String × Option Json) :=
  [("type", some (.ofText "call")), ("functionName", some (.ofText c.function)),
    ("scope", some (.ofText c.scope.tag)), ("ownerObject", c.object.map .ofText),
    ("ownerBehavior", c.behavior.map .ofText),
    ("arguments", some (.array (c.arguments.map argumentToJson))), ("span", some c.span.toJson)]

theorem fragmentToJson_call (c : LooseCall LooseTree) :
    fragmentToJson (.call c) = .record (Json.present (callSlots c)) := by
  obtain ⟨function, scope, object, behavior, arguments, span⟩ := c
  rw [fragmentToJson, argumentsToJson_eq_map]
  simp [callSlots, Json.present, Json.optional]

theorem argumentToJson_inj {a b : Argument LooseTree} (h : argumentToJson a = argumentToJson b)
    (ih : ∀ kind source t, a = .parsed kind source t → ∀ u, t.toJson = u.toJson → t = u) :
    a = b := by
  match a, b with
  | .raw text, .raw text' =>
    have hmembers := Json.record_inj h
    simp only [List.cons.injEq, Prod.mk.injEq, true_and, and_true] at hmembers
    rw [Json.ofText_inj hmembers]
  | .parsed kind source t, .parsed kind' source' t' =>
    have hmembers := Json.record_inj h
    simp only [List.cons.injEq, Prod.mk.injEq, true_and, and_true] at hmembers
    obtain ⟨hkind, hsource, htree⟩ := hmembers
    rw [Tree.argumentTag_inj (Json.ofText_inj hkind), Json.ofText_inj hsource,
      ih kind source t rfl t' htree]
  | .raw _, .parsed kind _ _ =>
    have htag := Json.ofText_inj (Prod.mk.inj (List.cons.inj (Json.record_inj h)).1).2
    exact absurd htag.symm (Tree.argumentTag_ne_raw kind)
  | .parsed kind _ _, .raw _ =>
    have htag := Json.ofText_inj (Prod.mk.inj (List.cons.inj (Json.record_inj h)).1).2
    exact absurd htag (Tree.argumentTag_ne_raw kind)

theorem call_inj {c d : LooseCall LooseTree}
    (h : fragmentToJson (.call c) = fragmentToJson (.call d))
    (ih : ∀ kind source t, .parsed kind source t ∈ c.arguments → ∀ u,
      t.toJson = u.toJson → t = u) :
    c = d := by
  rw [fragmentToJson_call, fragmentToJson_call] at h
  have honce : ((callSlots c).map (·.1)).Nodup := by
    change ["type", "functionName", "scope", "ownerObject", "ownerBehavior", "arguments",
      "span"].Nodup
    decide
  have hkeys : (callSlots c).map (·.1) = (callSlots d).map (·.1) := rfl
  have hslots := Json.present_inj hkeys honce (Json.record_inj h)
  simp only [callSlots, List.cons.injEq, Prod.mk.injEq, true_and, and_true, Option.some.injEq,
    Json.array.injEq] at hslots
  obtain ⟨hfunction, hscope, hobject, hbehavior, harguments, hspan⟩ := hslots
  have harguments : c.arguments = d.arguments := map_inj_of_mem
    (fun a ha b hab => argumentToJson_inj hab fun kind source t ht => ih kind source t (ht ▸ ha))
    harguments
  cases c
  cases d
  rw [LooseCall.mk.injEq]
  exact ⟨Json.ofText_inj hfunction, Scope.tag_inj (Json.ofText_inj hscope),
    Json.map_ofText_inj hobject, Json.map_ofText_inj hbehavior, harguments, Span.toJson_inj hspan⟩

def tag : LooseFragment → String
  | .constant _ => "constant"
  | .literal .. => "literal"
  | .call _ => "call"

theorem exists_fragmentToJson (f : LooseFragment) :
    ∃ ms, fragmentToJson f = .record (("type", .ofText (tag f)) :: ms) := by
  cases f with
  | constant text => exact ⟨_, rfl⟩
  | literal value span => exact ⟨_, rfl⟩
  | call call => exact ⟨_, rfl⟩

theorem tag_inj {f g : LooseFragment} (h : fragmentToJson f = fragmentToJson g) :
    tag f = tag g := by
  obtain ⟨ms, hms⟩ := exists_fragmentToJson f
  obtain ⟨ms', hms'⟩ := exists_fragmentToJson g
  rw [hms, hms'] at h
  exact Json.ofText_inj (Prod.mk.inj (List.cons.inj (Json.record_inj h)).1).2

theorem fragmentToJson_inj {f g : LooseFragment} (h : fragmentToJson f = fragmentToJson g)
    (ih : ∀ t, f.Nests t → ∀ u, t.toJson = u.toJson → t = u) : f = g := by
  match f, g with
  | .constant text, .constant text' =>
    have hmembers := Json.record_inj h
    simp only [List.cons.injEq, Prod.mk.injEq, true_and, and_true] at hmembers
    rw [Json.ofText_inj hmembers]
  | .literal value span, .literal value' span' =>
    have hmembers := Json.record_inj h
    simp only [List.cons.injEq, Prod.mk.injEq, true_and, and_true] at hmembers
    rw [Json.ofText_inj hmembers.1, Span.toJson_inj hmembers.2]
  | .call c, .call d => rw [call_inj h fun kind source t ht => ih t (.intro ht)]
  | .constant _, .literal .. | .constant _, .call _ | .literal .., .constant _
  | .literal .., .call _ | .call _, .constant _ | .call _, .literal .. =>
    exact absurd (tag_inj h) (by simp [tag])

theorem toJson_inj {t u : LooseTree} (h : t.toJson = u.toJson) : t = u := by
  induction t using induction generalizing u with
  | node kind fragments ih =>
    obtain ⟨kind', fragments'⟩ := u
    have hmembers := Json.record_inj h
    simp only [List.cons.injEq, Prod.mk.injEq, true_and, and_true, Json.array.injEq,
      fragmentsToJson_eq_map] at hmembers
    obtain ⟨hkind, hfragments⟩ := hmembers
    have hfragments := map_inj_of_mem
      (fun f hf g hfg => fragmentToJson_inj hfg fun t ht u => ih f hf t ht) hfragments
    rw [ValueKind.tag_inj (Json.ofText_inj hkind), hfragments]

theorem wellSpelled_argumentToJson {a : Argument LooseTree}
    (ih : ∀ kind source t, a = .parsed kind source t → t.toJson.WellSpelled) :
    (argumentToJson a).WellSpelled := by
  cases a with
  | raw text => exact Json.wellSpelled_record (by simp [Json.wellSpelled_ofText])
  | parsed kind source t =>
    exact Json.wellSpelled_record (by simp [Json.wellSpelled_ofText, ih kind source t rfl])

theorem wellSpelled_fragmentToJson {f : LooseFragment}
    (ih : ∀ t, f.Nests t → t.toJson.WellSpelled) :
    (fragmentToJson f).WellSpelled := by
  cases f with
  | constant text => exact Json.wellSpelled_record (by simp [Json.wellSpelled_ofText])
  | literal value span =>
    exact Json.wellSpelled_record (by simp [Json.wellSpelled_ofText, span.wellSpelled_toJson])
  | call c =>
    have harguments : Json.WellSpelled (.array (c.arguments.map argumentToJson)) := by
      refine Json.wellSpelled_array (List.forall_mem_map.2 fun a ha => ?_)
      exact wellSpelled_argumentToJson fun kind source t ht => ih t (.intro (ht ▸ ha))
    rw [fragmentToJson_call]
    refine Json.wellSpelled_present ?_
    simp [callSlots, Json.wellSpelled_ofText, harguments, c.span.wellSpelled_toJson]

theorem wellSpelled_toJson (t : LooseTree) : t.toJson.WellSpelled := by
  induction t using induction with
  | node kind fragments ih =>
    have hfragments : Json.WellSpelled (.array (fragments.map fragmentToJson)) :=
      Json.wellSpelled_array (List.forall_mem_map.2 fun f hf =>
        wellSpelled_fragmentToJson (ih f hf))
    rw [toJson, fragmentsToJson_eq_map]
    exact Json.wellSpelled_record (by simpa using ⟨Json.wellSpelled_ofText _, hfragments⟩)

theorem dump_inj {t u : LooseTree} (h : t.dump = u.dump) : t = u :=
  toJson_inj (Json.pretty_inj t.wellSpelled_toJson u.wellSpelled_toJson (String.ofList_injective h))

end LooseTree

inductive Fragment.Nests : Fragment → Tree → Prop where
  | intro {c : Call Tree} {kind : ValueKind} {source : String} {t : Tree} :
      .parsed kind source t ∈ c.arguments → Nests (.call c) t

theorem Fragment.Nests.sizeOf_lt {f : Fragment} {t : Tree} (h : f.Nests t) :
    sizeOf t < sizeOf f := by
  obtain @⟨c, kind, source, t, hmem⟩ := h
  have hargument := List.sizeOf_lt_of_mem hmem
  cases c
  simp only [Argument.parsed.sizeOf_spec, call.sizeOf_spec, Call.mk.sizeOf_spec] at *
  omega

namespace Tree

/-- Induction over the trees of arguments. -/
@[elab_as_elim]
theorem induction {motive : Tree → Prop}
    (node : ∀ kind fragments, (∀ f ∈ fragments, ∀ t, f.Nests t → motive t) →
      motive (.node kind fragments)) : ∀ t, motive t
  | .node kind fragments => node kind fragments fun _ hf t ht =>
    have hsmaller : sizeOf t < 1 + sizeOf kind + sizeOf fragments := by
      have hfragment := List.sizeOf_lt_of_mem hf
      have hargument := ht.sizeOf_lt
      omega
    induction node t
termination_by t => sizeOf t

theorem wellSpelled_toJson (t : Tree) : t.toJson.WellSpelled := t.loosen.wellSpelled_toJson

theorem loosenFragments_eq_map (fs : List Fragment) :
    loosenFragments fs = fs.map loosenFragment := by
  induction fs with
  | nil => rfl
  | cons f fs ih => rw [loosenFragments, ih, List.map_cons]

theorem loosenArguments_eq_map (as : List (Argument Tree)) :
    loosenArguments as = as.map loosenArgument := by
  induction as with
  | nil => rfl
  | cons a as ih => rw [loosenArguments, ih, List.map_cons]

theorem loosenArgument_inj {a b : Argument Tree} (h : loosenArgument a = loosenArgument b)
    (ih : ∀ kind source t, a = .parsed kind source t → ∀ u, t.loosen = u.loosen → t = u) :
    a = b := by
  match a, b with
  | .raw text, .raw text' => rw [Argument.raw.inj h]
  | .parsed kind source t, .parsed kind' source' t' =>
    obtain ⟨rfl, rfl, htree⟩ := Argument.parsed.inj h
    rw [ih kind source t rfl t' htree]
  | .raw _, .parsed .. | .parsed .., .raw _ => cases h

theorem loosenFragment_inj {f g : Fragment} (h : loosenFragment f = loosenFragment g)
    (ih : ∀ t, f.Nests t → ∀ u, t.loosen = u.loosen → t = u) : f = g := by
  match f, g with
  | .constant text, .constant text' => rw [LooseFragment.constant.inj h]
  | .literal value span, .literal value' span' =>
    obtain ⟨rfl, rfl⟩ := LooseFragment.literal.inj h
    rfl
  | .call ⟨target, function, arguments, span⟩,
    .call ⟨target', function', arguments', span'⟩ =>
    obtain ⟨rfl, hscope, hobject, hbehavior, harguments, rfl⟩ :=
      LooseCall.mk.inj (LooseFragment.call.inj h)
    rw [loosenArguments_eq_map, loosenArguments_eq_map] at harguments
    have harguments := map_inj_of_mem
      (fun a ha b hab => loosenArgument_inj hab fun kind source t ht => ih t (.intro (ht ▸ ha)))
      harguments
    rw [Target.scope_object?_behavior?_inj hscope hobject hbehavior, harguments]
  | .constant _, .literal .. | .constant _, .call _ | .literal .., .constant _
  | .literal .., .call _ | .call _, .constant _ | .call _, .literal .. => cases h

theorem loosen_inj {t u : Tree} (h : t.loosen = u.loosen) : t = u := by
  induction t using induction generalizing u with
  | node kind fragments ih =>
    obtain ⟨kind', fragments'⟩ := u
    obtain ⟨rfl, hfragments⟩ := LooseTree.node.inj h
    rw [loosenFragments_eq_map, loosenFragments_eq_map] at hfragments
    rw [map_inj_of_mem (fun f hf g hfg => loosenFragment_inj hfg fun t ht u => ih f hf t ht)
      hfragments]

/-- Trees with the same dump are the same, whatever strings they hold and however deep their calls
are nested, also if the owners of their calls do not go with the scopes. -/
theorem dump_eq_iff :
    (∀ t t' : Tree, t.dump = t'.dump ↔ t = t') ∧
    (∀ t : Tree, t.loosen.dump = t.dump) ∧ ∀ t t' : LooseTree, t.dump = t'.dump ↔ t = t' :=
  ⟨fun _ _ => ⟨fun h => loosen_inj (LooseTree.dump_inj h), congrArg dump⟩, fun _ => rfl,
    fun _ _ => ⟨LooseTree.dump_inj, congrArg LooseTree.dump⟩⟩

end Tree

end SceneExpr
