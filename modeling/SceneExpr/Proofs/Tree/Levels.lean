import Mathlib.Data.List.Forall2
import SceneExpr.Proofs.Tree.Assembly

namespace SceneExpr

section Lists

variable {ε α β : Type} {f : α → Except ε β}

theorem mapM_eq_ok_iff {as : List α} {bs : List β} :
    as.mapM f = .ok bs ↔ List.Forall₂ (fun a b => f a = .ok b) as bs := by
  induction as generalizing bs with
  | nil =>
    rw [List.mapM_nil, List.forall₂_nil_left_iff]
    exact ⟨fun h => (Except.ok.inj h).symm, fun h => congrArg Except.ok h.symm⟩
  | cons a as ih =>
    rw [List.mapM_cons, List.forall₂_cons_left_iff]
    cases f a with
    | error e => exact ⟨fun h => (by cases h), fun ⟨b, _, hb, _⟩ => (by cases hb)⟩
    | ok b =>
      cases hrest : as.mapM f with
      | error e =>
        refine ⟨fun h => (by cases h), fun ⟨b', bs', _, hbs, _⟩ => ?_⟩
        rw [← ih, hrest] at hbs
        cases hbs
      | ok bs' =>
        constructor
        · intro h
          obtain rfl := Except.ok.inj h
          exact ⟨b, bs', rfl, ih.1 hrest, rfl⟩
        · rintro ⟨b', bs'', hb, hbs, rfl⟩
          obtain rfl := Except.ok.inj hb
          obtain rfl := Except.ok.inj (hrest.symm.trans (ih.2 hbs))
          rfl

theorem exists_of_mapM_eq_error {as : List α} {e : ε} (h : as.mapM f = .error e) :
    ∃ before a after bs, as = before ++ a :: after ∧ before.mapM f = .ok bs ∧
      f a = .error e := by
  induction as with
  | nil => cases h
  | cons a as ih =>
    rw [List.mapM_cons] at h
    cases ha : f a with
    | error e' =>
      rw [ha] at h
      obtain rfl := Except.error.inj h
      exact ⟨[], a, as, [], rfl, rfl, ha⟩
    | ok b =>
      rw [ha] at h
      cases hrest : as.mapM f with
      | ok bs =>
        rw [hrest] at h
        cases h
      | error e' =>
        rw [hrest] at h
        obtain rfl := Except.error.inj h
        obtain ⟨before, a', after, bs, rfl, hbefore, ha'⟩ := ih hrest
        refine ⟨a :: before, a', after, b :: bs, rfl, ?_, ha'⟩
        rw [List.mapM_cons, ha, hbefore]
        rfl

theorem mapM_append_cons_of_error {before : List α} {a : α} {bs : List β} {e : ε}
    (hbefore : before.mapM f = .ok bs) (ha : f a = .error e) (after : List α) :
    (before ++ a :: after).mapM f = .error e := by
  rw [List.mapM_append, hbefore, List.mapM_cons, ha]
  rfl

variable {γ : Type} {R : α → β → Prop} {as : List α} {bs : List β}

theorem exists_of_forall₂_of_mem (h : List.Forall₂ R as bs) {b : β} (hb : b ∈ bs) :
    ∃ a ∈ as, R a b := by
  induction h with
  | nil => simp at hb
  | @cons a b' as bs hab _ ih =>
    rcases List.mem_cons.1 hb with rfl | hb
    · exact ⟨a, List.mem_cons_self, hab⟩
    · obtain ⟨a', ha', hab'⟩ := ih hb
      exact ⟨a', List.mem_cons_of_mem a ha', hab'⟩

theorem forall₂_trans {S : β → γ → Prop} {T : α → γ → Prop} {cs : List γ}
    (hRS : ∀ a b c, R a b → S b c → T a c) (h : List.Forall₂ R as bs)
    (h' : List.Forall₂ S bs cs) :
    List.Forall₂ T as cs := by
  induction h generalizing cs with
  | nil =>
    cases h'
    exact .nil
  | cons hab _ ih =>
    cases h' with
    | cons hbc h' => exact .cons (hRS _ _ _ hab hbc) (ih h')

end Lists

section Built

variable {nested : ValueKind → String → Except ParseError Tree}

theorem Argument.exists_of_built_parsed {kind : ValueKind} {source : String} {origin : Origin}
    {b : Argument Tree} (h : (Argument.parsed kind source origin).built nested = .ok b) :
    ∃ t, nested kind source = .ok t ∧ b = .parsed kind source t := by
  simp only [built] at h
  cases ht : nested kind source with
  | error e =>
    rw [ht] at h
    cases h
  | ok t =>
    rw [ht] at h
    exact ⟨t, rfl, (Except.ok.inj h).symm⟩

theorem Item.exists_of_built_call {c : Call Origin} {signature : Signature} {f : Fragment}
    (h : (Item.call c signature).built nested = .ok f) :
    ∃ arguments,
      List.Forall₂ (fun a b => Argument.built nested a = .ok b) c.arguments arguments ∧
      f = .call ⟨c.target, c.function, arguments, c.span⟩ := by
  obtain ⟨arguments, harguments, rfl⟩ := exists_of_map_ok h
  exact ⟨arguments, mapM_eq_ok_iff.1 harguments, rfl⟩

theorem Item.eq_of_built_literal {i : Item} {value : String} {span : Span}
    (h : i.built nested = .ok (.literal value span)) : i = .literal value span := by
  cases i with
  | constant t => cases h
  | literal value' span' =>
    obtain ⟨rfl, rfl⟩ := Fragment.literal.inj (Except.ok.inj h)
    rfl
  | call c signature =>
    obtain ⟨_, _, hf⟩ := exists_of_built_call h
    cases hf

theorem Item.exists_of_built_eq_call {i : Item} {c : Call Tree}
    (h : i.built nested = .ok (.call c)) :
    ∃ planned signature arguments, i = .call planned signature ∧
      List.Forall₂ (fun a b => Argument.built nested a = .ok b) planned.arguments arguments ∧
      c = ⟨planned.target, planned.function, arguments, planned.span⟩ := by
  cases i with
  | constant t => cases h
  | literal value span => cases h
  | call planned signature =>
    obtain ⟨arguments, harguments, hf⟩ := exists_of_built_call h
    exact ⟨planned, signature, arguments, rfl, harguments, Fragment.call.inj hf⟩

end Built

/-- The tree with its text, and the trees of arguments in it with their sources, at any depth. -/
inductive Tree.Holds : Tree → String → String → Tree → Prop where
  | self (t : Tree) (text : String) : Holds t text text t
  | argument {t t' u : Tree} {text source inner : String} {c : Call Tree} {kind : ValueKind} :
      .call c ∈ t.fragments → .parsed kind source t' ∈ c.arguments →
      Holds t' source inner u →
      Holds t text inner u

namespace Parser

/-- The tree of a text when `levels` levels of trees are left, its own included. -/
def enter (p : Parser) : (levels : Nat) → ValueKind → String → Except ParseError Tree
  | 0 => fun _ text => .error ((Fault.tooDeep p.options.maxDepth).error ⟨0, width text.toList⟩)
  | levels + 1 => p.buildWith (p.enter levels)

theorem buildWithin_eq_enter (p : Parser) (depth : Nat) :
    p.buildWithin depth = p.enter (depth + 1) := by
  induction depth with
  | zero => rfl
  | succ depth ih =>
    rw [buildWithin, ih]
    rfl

theorem build_eq_enter (p : Parser) : p.build = p.enter (p.options.maxDepth + 1) :=
  p.buildWithin_eq_enter p.options.maxDepth

variable {p : Parser} {nested : ValueKind → String → Except ParseError Tree} {kind : ValueKind}
  {text : String}

/-- A tree has one fragment for each item, and the scan has no error. -/
theorem buildWith_eq_ok_iff {t : Tree} :
    p.buildWith nested kind text = .ok t ↔ ∃ fragments, t = .node kind fragments ∧
      (p.scan kind text).error = none ∧
      List.Forall₂ (fun i f => Item.built nested i = .ok f)
        (p.scan kind text).items fragments := by
  rw [buildWith_eq]
  constructor
  · intro h
    obtain ⟨fragments, hbuilt, rfl⟩ := exists_of_map_ok h
    obtain ⟨herror, hitems⟩ := Scan.built_eq_ok_iff.1 hbuilt
    exact ⟨fragments, rfl, herror, mapM_eq_ok_iff.1 hitems⟩
  · rintro ⟨fragments, rfl, herror, hitems⟩
    rw [Scan.built_eq_ok_iff.2 ⟨herror, mapM_eq_ok_iff.2 hitems⟩]
    rfl

/-- The tree of an argument is built of its source, and the source was cut out by the scan. -/
theorem argument_of_buildWith {t u : Tree} {c : Call Tree} {kind' : ValueKind} {source : String}
    (h : p.buildWith nested kind text = .ok t) (hc : .call c ∈ t.fragments)
    (ha : .parsed kind' source u ∈ c.arguments) :
    nested kind' source = .ok u ∧ ∃ planned signature origin,
      .call planned signature ∈ (p.scan kind text).items ∧
        .parsed kind' source origin ∈ planned.arguments := by
  obtain ⟨fragments, rfl, -, hfragments⟩ := buildWith_eq_ok_iff.1 h
  obtain ⟨i, hi, hbuilt⟩ := exists_of_forall₂_of_mem hfragments hc
  obtain ⟨planned, signature, arguments, rfl, harguments, rfl⟩ :=
    Item.exists_of_built_eq_call hbuilt
  obtain ⟨a, hplanned, ha⟩ := exists_of_forall₂_of_mem harguments ha
  cases a with
  | raw text => cases ha
  | parsed kind'' source' origin =>
    obtain ⟨u', hu', heq⟩ := Argument.exists_of_built_parsed ha
    obtain ⟨rfl, rfl, rfl⟩ := Argument.parsed.inj heq
    exact ⟨hu', planned, signature, origin, hi, hplanned⟩

/-- Where trees of arguments are still built when more can be built, so is the tree of a text. -/
theorem buildWith_mono {nested' : ValueKind → String → Except ParseError Tree} {t : Tree}
    (hnested : ∀ kind' source u, nested kind' source = .ok u → nested' kind' source = .ok u)
    (h : p.buildWith nested kind text = .ok t) : p.buildWith nested' kind text = .ok t := by
  obtain ⟨fragments, rfl, herror, hfragments⟩ := buildWith_eq_ok_iff.1 h
  refine buildWith_eq_ok_iff.2 ⟨fragments, rfl, herror, hfragments.imp fun i f hf => ?_⟩
  cases i with
  | constant text => exact hf
  | literal value span => exact hf
  | call c signature =>
    obtain ⟨arguments, harguments, rfl⟩ := Item.exists_of_built_call hf
    have harguments' := harguments.imp (S := fun a b => Argument.built nested' a = .ok b)
      fun a b hb => ?_
    · rw [Item.built, mapM_eq_ok_iff.2 harguments']
      rfl
    · cases a with
      | raw text => exact hb
      | parsed kind' source origin =>
        obtain ⟨u, hu, rfl⟩ := Argument.exists_of_built_parsed hb
        simp only [Argument.built, hnested _ _ u hu]

/-- The argument is the first part of the text that fails: all that stands in front of it is
built. -/
inductive FailsFirst (p : Parser) (nested : ValueKind → String → Except ParseError Tree)
    (kind : ValueKind) (text : String) (kind' : ValueKind) (source : String)
    (origin : Origin) : Prop where
  | intro {before after : List Item} {c : Call Origin} {signature : Signature}
      {as bs : List (Argument Origin)} {fragments : List Fragment} {trees : List (Argument Tree)} :
      (p.scan kind text).items = before ++ .call c signature :: after →
      before.mapM (Item.built nested) = .ok fragments →
      c.arguments = as ++ .parsed kind' source origin :: bs →
      as.mapM (Argument.built nested) = .ok trees →
      FailsFirst p nested kind text kind' source origin

/-- Building fails with the error of the scan, when all items are built, or with that of the first
argument that fails. -/
theorem buildWith_eq_error_iff {e : ParseError} :
    p.buildWith nested kind text = .error e ↔
      (p.scan kind text).error = some e ∧
        (∃ fragments, (p.scan kind text).items.mapM (Item.built nested) = .ok fragments) ∨
      ∃ kind' source origin inner, p.FailsFirst nested kind text kind' source origin ∧
        nested kind' source = .error inner ∧ e = origin.locate inner := by
  rw [buildWith_eq]
  constructor
  · intro h
    have hbuilt := error_of_map_error h
    unfold Scan.built at hbuilt
    cases hitems : (p.scan kind text).items.mapM (Item.built nested) with
    | ok fragments =>
      left
      rw [hitems] at hbuilt
      cases herror : (p.scan kind text).error with
      | none =>
        rw [herror] at hbuilt
        cases hbuilt
      | some e' =>
        rw [herror] at hbuilt
        obtain rfl := Except.error.inj hbuilt
        exact ⟨rfl, fragments, rfl⟩
    | error e' =>
      right
      rw [hitems] at hbuilt
      obtain rfl := Except.error.inj hbuilt
      obtain ⟨before, i, after, fragments, hsplit, hbefore, hi⟩ :=
        exists_of_mapM_eq_error hitems
      cases i with
      | constant t => cases hi
      | literal value span => cases hi
      | call c signature =>
        obtain ⟨as, a, bs, trees, harguments, has, ha⟩ :=
          exists_of_mapM_eq_error (error_of_map_error hi)
        cases a with
        | raw t => cases ha
        | parsed kind' source origin =>
          simp only [Argument.built] at ha
          cases hnested : nested kind' source with
          | ok tree =>
            rw [hnested] at ha
            cases ha
          | error inner =>
            rw [hnested] at ha
            exact ⟨kind', source, origin, inner, .intro hsplit hbefore harguments has, hnested,
              (Except.error.inj ha).symm⟩
  · rintro (⟨herror, fragments, hitems⟩ | ⟨kind', source, origin, inner, hfirst,
      hnested, rfl⟩)
    · rw [Scan.built, hitems, herror]
      rfl
    · cases hfirst with
      | @intro before after c signature as bs fragments trees hsplit hbefore harguments has =>
        have ha : Argument.built nested (.parsed kind' source origin) =
            .error (origin.locate inner) := by
          simp only [Argument.built, hnested]
        have hitem : Item.built nested (.call c signature) = .error (origin.locate inner) := by
          rw [Item.built, harguments, mapM_append_cons_of_error has ha]
          rfl
        rw [Scan.built, hsplit, mapM_append_cons_of_error hbefore hitem]
        rfl

/-- More levels make no difference to a tree. -/
theorem enter_mono {levels levels' : Nat} {t : Tree} (hle : levels ≤ levels')
    (h : p.enter levels kind text = .ok t) : p.enter levels' kind text = .ok t := by
  induction levels generalizing levels' kind text t with
  | zero => cases h
  | succ levels ih =>
    obtain ⟨levels', rfl⟩ : ∃ n, levels' = n + 1 := ⟨levels' - 1, by omega⟩
    exact buildWith_mono (fun _ _ _ hu => ih (by omega) hu) h

theorem kind_of_enter {levels : Nat} {t : Tree} (h : p.enter levels kind text = .ok t) :
    t.kind = kind := by
  cases levels with
  | zero => cases h
  | succ levels =>
    obtain ⟨fragments, rfl, -⟩ := buildWith_eq_ok_iff.1 h
    rfl

/-- All trees in a tree are built of their texts in the same way, with no more levels left than for
the whole tree. -/
theorem exists_lt_of_holds {levels : Nat} {t u : Tree} {inner : String}
    (h : p.enter levels kind text = .ok t) (hu : t.Holds text inner u) :
    ∃ levels' < levels, p.buildWith (p.enter levels') u.kind inner = .ok u := by
  induction hu generalizing levels kind with
  | self t text =>
    rw [kind_of_enter h]
    cases levels with
    | zero => cases h
    | succ levels => exact ⟨levels, levels.lt_succ_self, h⟩
  | argument hc ha _ ih =>
    cases levels with
    | zero => cases h
    | succ levels =>
      obtain ⟨levels', hlt, hbuilt⟩ := ih (argument_of_buildWith h hc ha).1
      exact ⟨levels', Nat.lt_succ_of_lt hlt, hbuilt⟩

theorem exists_of_holds {levels : Nat} {t u : Tree} {inner : String}
    (h : p.enter levels kind text = .ok t) (hu : t.Holds text inner u) :
    ∃ levels', p.buildWith (p.enter levels') u.kind inner = .ok u := by
  obtain ⟨levels', -, hbuilt⟩ := exists_lt_of_holds h hu
  exact ⟨levels', hbuilt⟩

end Parser

end SceneExpr
