import Mathlib.Data.Nat.Find
import Mathlib.Order.Bounds.Basic
import SceneExpr.Proofs.Catalog.Order

namespace SceneExpr

section BreaksAt

variable {α : Type} {P : List α → Prop} {l : List α} {i : Nat}

/-- The list breaks a rule as soon as it is read through the position, and no earlier. -/
def BreaksAt (P : List α → Prop) (l : List α) (i : Nat) : Prop :=
  IsLeast {j | ¬P (l.take (j + 1))} i

theorem BreaksAt.holds_take (h : BreaksAt P l i) (hnil : P []) : P (l.take i) := by
  cases i with
  | zero => exact hnil
  | succ i =>
    by_contra hbroken
    have hle : i + 1 ≤ i := h.2 hbroken
    omega

theorem BreaksAt.lt_length (h : BreaksAt P l i) (hnil : P []) : i < l.length := by
  by_contra hge
  apply h.1
  rw [List.take_of_length_le (by omega), ← List.take_of_length_le (Nat.le_of_not_lt hge)]
  exact h.holds_take hnil

theorem exists_breaksAt (h : ¬P l) : ∃ i, BreaksAt P l i := by
  classical
  have hbroken : ∃ j, ¬P (l.take (j + 1)) :=
    ⟨l.length, by rwa [List.take_of_length_le (Nat.le_succ _)]⟩
  refine ⟨Nat.find hbroken, Nat.find_spec hbroken, ?_⟩
  intro j hj
  exact Nat.find_min' hbroken hj

theorem take_append_of_getElem? {a : α} (ha : l[i]? = some a) :
    l = l.take i ++ a :: l.drop (i + 1) ∧ l.take (i + 1) = l.take i ++ [a] := by
  obtain ⟨hi, rfl⟩ := List.getElem?_eq_some_iff.1 ha
  constructor
  · rw [← List.drop_eq_getElem_cons hi, List.take_append_drop]
  · exact (List.take_append_getElem hi).symm

theorem pairwise_ne_append_singleton {β : Type} {f : α → β} {a : α}
    (h : l.Pairwise fun x y => f x ≠ f y) (hnew : f a ∉ l.map f) :
    (l ++ [a]).Pairwise fun x y => f x ≠ f y := by
  refine List.pairwise_append.2 ⟨h, List.pairwise_singleton _ _, ?_⟩
  intro x hx y hy heq
  rw [List.mem_singleton.1 hy] at heq
  exact hnew (heq ▸ List.mem_map_of_mem hx)

end BreaksAt

theorem Signature.hasDoubleColon_iff {cs : List Char} :
    hasDoubleColon cs = true ↔ [':', ':'] <:+: cs := by
  constructor
  · intro h
    fun_induction hasDoubleColon cs with
    | case1 cs => exact ⟨[], cs, rfl⟩
    | case2 c cs _ ih =>
      obtain ⟨front, back, hcs⟩ := ih h
      exact ⟨c :: front, back, by rw [← hcs]; rfl⟩
    | case3 => cases h
  · rintro ⟨front, back, rfl⟩
    rw [List.append_assoc]
    exact hasDoubleColon_append front back

namespace Signature

/-- What every entry of a catalog has to be by itself. -/
structure WellFormed (s : Signature) : Prop where
  name_not_blank : ∃ c ∈ s.name.toList, isBlank c = false
  open_not_mem : '(' ∉ s.name.toList
  dot_not_mem : '.' ∉ s.name.toList
  colons_not_infix : ¬[':', ':'] <:+: s.name.toList
  owner_of_static : s.scope = .static → s.ownerType = none
  owner_of_object : s.scope = .object → s.ownerType ≠ none
  owner_of_behavior : s.scope = .behavior → ∃ type, s.ownerType = some type ∧ type ≠ ""

def HasFlaw (s : Signature) : EntryFlaw → Prop
  | .blankName => ∀ c ∈ s.name.toList, isBlank c = true
  | .forbiddenName => '(' ∈ s.name.toList ∨ '.' ∈ s.name.toList ∨
    [':', ':'] <:+: s.name.toList
  | .ownerOfStatic => s.scope = .static ∧ s.ownerType ≠ none
  | .missingOwner => s.scope ≠ .static ∧ s.ownerType = none
  | .emptyBehaviorOwner => s.scope = .behavior ∧ s.ownerType = some ""

end Signature

/-- The name of an entry is looked at before its owner type, which breaks one rule at most. -/
def EntryFlaw.rank : EntryFlaw → Nat
  | .blankName => 0
  | .forbiddenName => 1
  | .ownerOfStatic | .missingOwner | .emptyBehaviorOwner => 2

namespace Signature

variable {s : Signature} {f g : EntryFlaw}

def FirstFlaw (s : Signature) (f : EntryFlaw) : Prop :=
  s.HasFlaw f ∧ ∀ g, s.HasFlaw g → f.rank ≤ g.rank

theorem FirstFlaw.unique (hf : s.FirstFlaw f) (hg : s.FirstFlaw g) : f = g := by
  have hrank : f.rank = g.rank := Nat.le_antisymm (hf.2 g hg.1) (hg.2 f hf.1)
  have hhas := hf.1
  have hhas' := hg.1
  cases f <;> cases g <;> simp_all [EntryFlaw.rank, HasFlaw]

theorem hasFlaw_of_ownerFlaw? (h : s.ownerFlaw? = some f) : s.HasFlaw f ∧ f.rank = 2 := by
  unfold ownerFlaw? at h
  split at h <;> grind [HasFlaw, EntryFlaw.rank]

theorem firstFlaw_of_flaw? (h : s.flaw? = some f) : s.FirstFlaw f := by
  unfold flaw? at h
  dsimp only at h
  split at h
  next hblank =>
    obtain rfl := Option.some.inj h
    exact ⟨List.all_eq_true.1 hblank, fun g _ => Nat.zero_le _⟩
  next hblank =>
    have hone (g : EntryFlaw) (hg : s.HasFlaw g) : 1 ≤ g.rank := by
      cases g with
      | blankName => exact absurd (List.all_eq_true.2 hg) hblank
      | _ => decide
    split at h
    next hforbidden =>
      obtain rfl := Option.some.inj h
      rw [hasDoubleColon_iff] at hforbidden
      exact ⟨hforbidden, hone⟩
    next hforbidden =>
      obtain ⟨hhas, hrank⟩ := hasFlaw_of_ownerFlaw? h
      refine ⟨hhas, fun g hg => ?_⟩
      rw [hrank]
      cases g with
      | blankName => exact absurd (List.all_eq_true.2 hg) hblank
      | forbiddenName =>
        rw [hasDoubleColon_iff] at hforbidden
        exact absurd hg hforbidden
      | _ => decide

theorem ownerFlaw?_eq_none_iff : s.ownerFlaw? = none ↔
    (s.scope = .static → s.ownerType = none) ∧ (s.scope = .object → s.ownerType ≠ none) ∧
      (s.scope = .behavior → ∃ type, s.ownerType = some type ∧ type ≠ "") := by
  unfold ownerFlaw?
  cases s.scope <;> cases s.ownerType <;> simp

theorem WellFormed.not_hasFlaw (h : s.WellFormed) (f : EntryFlaw) : ¬s.HasFlaw f := by
  intro hf
  cases f with
  | blankName =>
    obtain ⟨c, hc, hcblank⟩ := h.name_not_blank
    rw [hf c hc] at hcblank
    cases hcblank
  | forbiddenName =>
    rcases hf with hopen | hdot | hcolons
    · exact h.open_not_mem hopen
    · exact h.dot_not_mem hdot
    · exact h.colons_not_infix hcolons
  | ownerOfStatic => exact hf.2 (h.owner_of_static hf.1)
  | missingOwner =>
    cases hscope : s.scope with
    | static => exact hf.1 hscope
    | object => exact h.owner_of_object hscope hf.2
    | behavior =>
      obtain ⟨type, htype, -⟩ := h.owner_of_behavior hscope
      rw [hf.2] at htype
      cases htype
  | emptyBehaviorOwner =>
    obtain ⟨type, htype, hne⟩ := h.owner_of_behavior hf.1
    rw [hf.2] at htype
    exact hne (Option.some.inj htype).symm

theorem flaw?_eq_none_iff_wellFormed : s.flaw? = none ↔ s.WellFormed := by
  rw [flaw?_eq_none_iff, hasDoubleColon_iff, ownerFlaw?_eq_none_iff]
  constructor
  · rintro ⟨hblank, hforbidden, hstatic, hobject, hbehavior⟩
    simp only [List.all_eq_true, not_forall, Bool.not_eq_true] at hblank
    obtain ⟨c, hc, hcblank⟩ := hblank
    exact ⟨⟨c, hc, hcblank⟩, fun h => hforbidden (.inl h), fun h =>
      hforbidden (.inr (.inl h)),
      fun h => hforbidden (.inr (.inr h)), hstatic, hobject, hbehavior⟩
  · intro h
    exact ⟨fun hblank => h.not_hasFlaw .blankName (List.all_eq_true.1 hblank),
      h.not_hasFlaw .forbiddenName, h.owner_of_static, h.owner_of_object, h.owner_of_behavior⟩

theorem flaw?_eq_some_iff : s.flaw? = some f ↔ s.FirstFlaw f := by
  refine ⟨firstFlaw_of_flaw?, fun hf => ?_⟩
  cases hflaw : s.flaw? with
  | none => exact absurd hf.1 ((flaw?_eq_none_iff_wellFormed.1 hflaw).not_hasFlaw f)
  | some g => rw [(firstFlaw_of_flaw? hflaw).unique hf]

end Signature

namespace Catalog

variable {c : Catalog} {s : Signature} {i : Nat} {e : CatalogError}

structure Sound (functions : List Signature) : Prop where
  wellFormed : ∀ s ∈ functions, s.WellFormed
  keys_ne : functions.Pairwise fun s t => Key.ofSignature s ≠ Key.ofSignature t

theorem Sound.nil : Sound [] := ⟨by simp, .nil⟩

theorem validateFrom_eq_ok_iff {index : Nat} {functions : List Signature} :
    validateFrom index [] functions = .ok () ↔ Sound functions := by
  constructor
  · intro h
    refine ⟨fun s hs =>
      Signature.flaw?_eq_none_iff_wellFormed.1 (flaw?_eq_none_of_validateFrom h hs), ?_⟩
    exact List.pairwise_map.1 (keys_of_validateFrom h).1
  · intro h
    refine validateFrom_eq_ok
      (fun s hs => Signature.flaw?_eq_none_iff_wellFormed.2 (h.wellFormed s hs)) ?_
      fun _ _ => List.not_mem_nil
    exact List.pairwise_map.2 h.keys_ne

/-- Behind entries that follow the rules, the check goes on with their keys. -/
theorem validateFrom_append {index : Nat} {seen : List Key} {front : List Signature}
    (h : validateFrom index seen front = .ok ()) (back : List Signature) :
    validateFrom index seen (front ++ back) =
      validateFrom (index + front.length) ((front.map Key.ofSignature).reverse ++ seen) back := by
  induction front generalizing index seen with
  | nil => rfl
  | cons s front ih =>
    rw [List.cons_append, validateFrom]
    rw [validateFrom] at h
    split at h
    · simp at h
    next =>
      split at h
      · simp at h
      next hnew =>
        rw [if_neg hnew, ih h, List.map_cons, List.reverse_cons, List.append_assoc,
          List.singleton_append, List.length_cons, Nat.add_right_comm, Nat.add_assoc]

/-- The check stops at the entry with which the rules are broken: for what is wrong with it alone,
or else for its key. -/
theorem validate_of_breaksAt (h : BreaksAt Sound c.functions i) (hs : c.functions[i]? = some s) :
    c.validate =
      match s.flaw? with
      | some flaw => .error (.invalidEntry i s.name flaw)
      | none => .error (.duplicateEntry (Key.ofSignature s)) := by
  obtain ⟨hsplit, htake⟩ := take_append_of_getElem? hs
  have hfront : Sound (c.functions.take i) := h.holds_take .nil
  have hlength : (c.functions.take i).length = i := List.length_take_of_le (h.lt_length .nil).le
  rw [validate, hsplit, validateFrom_append (validateFrom_eq_ok_iff.2 hfront), hlength,
    Nat.zero_add, List.append_nil, validateFrom]
  cases hflaw : s.flaw? with
  | some flaw => rfl
  | none =>
    dsimp only
    rw [if_pos]
    by_contra hnew
    -- Then the entries through this one follow the rules.
    apply h.1
    rw [htake]
    constructor
    · intro t ht
      rcases List.mem_append.1 ht with ht | ht
      · exact hfront.wellFormed t ht
      · rw [List.mem_singleton.1 ht]
        exact Signature.flaw?_eq_none_iff_wellFormed.1 hflaw
    · exact pairwise_ne_append_singleton hfront.keys_ne fun hmem => hnew (List.mem_reverse.2 hmem)

theorem validate_eq_ok_iff : c.validate = .ok () ↔ Sound c.functions := validateFrom_eq_ok_iff

theorem validate_eq_error_iff : c.validate = .error e ↔ ∃ i s, c.functions[i]? = some s ∧
    BreaksAt Sound c.functions i ∧
      ((∃ flaw, s.FirstFlaw flaw ∧ e = .invalidEntry i s.name flaw) ∨
        s.WellFormed ∧ e = .duplicateEntry (Key.ofSignature s)) := by
  constructor
  · intro h
    have hbroken : ¬Sound c.functions := by
      intro hsound
      rw [validate_eq_ok_iff.2 hsound] at h
      cases h
    obtain ⟨i, hi⟩ := exists_breaksAt hbroken
    have hs := List.getElem?_eq_getElem (hi.lt_length .nil)
    refine ⟨i, _, hs, hi, ?_⟩
    rw [validate_of_breaksAt hi hs] at h
    split at h
    next flaw hflaw =>
      exact .inl ⟨flaw, Signature.flaw?_eq_some_iff.1 hflaw, (Except.error.inj h).symm⟩
    next hflaw =>
      exact .inr ⟨Signature.flaw?_eq_none_iff_wellFormed.1 hflaw, (Except.error.inj h).symm⟩
  · rintro ⟨i, s, hs, hi, ⟨flaw, hfirst, rfl⟩ | ⟨hwell, rfl⟩⟩
    · rw [validate_of_breaksAt hi hs, Signature.flaw?_eq_some_iff.2 hfirst]
    · rw [validate_of_breaksAt hi hs, Signature.flaw?_eq_none_iff_wellFormed.2 hwell]

end Catalog

end SceneExpr
