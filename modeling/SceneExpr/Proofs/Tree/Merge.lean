import SceneExpr.Proofs.Tree.Assembly

namespace SceneExpr

namespace Fragment

def glue : Fragment → List Fragment → List Fragment
  | .constant s, .constant t :: fs => .constant (s ++ t) :: fs
  | f, fs => f :: fs

def merge (fs : List Fragment) : List Fragment := fs.foldr glue []

theorem glue_of_apart {f : Fragment} {fs : List Fragment}
    (h : ∀ g ∈ fs.head?, ¬(f.segment.isConstant = true ∧ g.segment.isConstant = true)) :
    glue f fs = f :: fs := by
  unfold glue
  split
  next s t gs => exact absurd ⟨rfl, rfl⟩ (h (.constant t) rfl)
  next => rfl

theorem glue_glue_constant (s t : String) (fs : List Fragment) :
    glue (.constant s) (glue (.constant t) fs) = glue (.constant (s ++ t)) fs := by
  match fs with
  | [] => rfl
  | .constant u :: gs =>
    change [Fragment.constant (s ++ (t ++ u))] ++ gs = [Fragment.constant (s ++ t ++ u)] ++ gs
    rw [String.append_assoc]
  | .literal value span :: gs => rfl
  | .call c :: gs => rfl

theorem merge_cons (f : Fragment) (fs : List Fragment) : merge (f :: fs) = glue f (merge fs) := rfl

theorem merge_append (xs ys : List Fragment) : merge (xs ++ ys) = xs.foldr glue (merge ys) :=
  List.foldr_append

/-- Merging does not reach past a token. -/
theorem foldr_glue_token {text : List Char} {f : Fragment} (hf : f.segment.isConstant = false)
    (fs tail : List Fragment) :
    ((if text = [] then [] else [constant (String.ofList text)]) ++ f :: fs).foldr glue tail =
      (if text = [] then [] else [constant (String.ofList text)]) ++ f :: fs.foldr glue tail := by
  have hglue : glue f (fs.foldr glue tail) = f :: fs.foldr glue tail :=
    glue_of_apart fun g _ h => by simp [hf] at h
  rw [List.foldr_append, List.foldr_cons, hglue]
  split
  next => rfl
  next =>
    apply glue_of_apart
    intro g hg h
    obtain rfl := Option.some.inj hg
    simp [hf] at h

/-- Where no two constant texts stand next to each other, nothing is merged. -/
theorem merge_eq_self {fs : List Fragment} (h : Segment.Separated (fs.map segment)) :
    merge fs = fs := by
  have hapart := (List.isChain_map segment).1 h.apart
  clear h
  induction fs with
  | nil => rfl
  | cons f fs ih =>
    obtain ⟨hhead, hrest⟩ := List.isChain_cons.1 hapart
    rw [merge_cons, ih hrest]
    exact glue_of_apart hhead

end Fragment

namespace Scan

variable {nested : ValueKind → String → Except ParseError Tree} {s : Scan}

theorem built_cons_constant (t : String) (s : Scan) :
    (cons (.constant t) s).built nested = (s.built nested).map fun fs => .constant t :: fs := by
  unfold built cons
  rw [List.mapM_cons]
  cases s.items.mapM (Item.built nested) with
  | error e => rfl
  | ok fs => cases s.error <;> rfl

theorem built_constant_cons_eq_ok_iff {text : List Char} {i : Item} {fs : List Fragment} :
    (constant text (cons i s)).built nested = .ok fs ↔
      ∃ f gs, i.built nested = .ok f ∧ s.built nested = .ok gs ∧
        fs = (if text = [] then [] else [.constant (String.ofList text)]) ++ f :: gs := by
  unfold constant
  split
  next => exact built_cons_eq_ok_iff
  next =>
    rw [built_cons_constant]
    constructor
    · intro h
      obtain ⟨hs, hhs, rfl⟩ := exists_of_map_ok h
      obtain ⟨f, gs, hf, hgs, rfl⟩ := built_cons_eq_ok_iff.1 hhs
      exact ⟨f, gs, hf, hgs, rfl⟩
    · rintro ⟨f, gs, hf, hgs, rfl⟩
      rw [built_cons_eq_ok_iff.2 ⟨f, gs, hf, hgs, rfl⟩]
      rfl

/-- What is put behind constant text at the end of a scan joins that text. -/
theorem foldr_glue_of_built_constant {text : List Char} {fs : List Fragment}
    (h : (constant text finished).built nested = .ok fs) (t : String) (tail : List Fragment) :
    fs.foldr Fragment.glue (Fragment.glue (.constant t) tail) =
      Fragment.glue (.constant (String.ofList text ++ t)) tail := by
  unfold constant at h
  split at h
  next htext =>
    obtain rfl := Except.ok.inj h
    simp [htext]
  next =>
    obtain rfl : [Fragment.constant (String.ofList text)] = fs := Except.ok.inj h
    exact Fragment.glue_glue_constant _ t tail

/-- Constant text in front of a scan that begins with none joins the first fragment. -/
theorem built_constant_append {pre text : List Char} (hpre : pre ≠ [])
    (hhead : ∀ i ∈ s.items.head?, i.segment.isConstant = false) :
    (constant (pre ++ text) s).built nested =
      ((constant text s).built nested).map (Fragment.glue (.constant (String.ofList pre))) := by
  have hne : pre ++ text ≠ [] := by simp [hpre]
  rw [constant, if_neg hne, built_cons_constant]
  by_cases htext : text = []
  · subst htext
    rw [List.append_nil, constant, if_pos rfl]
    cases hs : s.built nested with
    | error e => rfl
    | ok fs =>
      have hglue : Fragment.glue (.constant (String.ofList pre)) fs =
          .constant (String.ofList pre) :: fs := by
        apply Fragment.glue_of_apart
        rintro g hg ⟨-, hconst⟩
        have hsegments := congrArg List.head? (segments_of_built hs)
        rw [List.head?_map, List.head?_map, hg] at hsegments
        obtain ⟨i, hi, hseg⟩ := Option.map_eq_some_iff.1 hsegments.symm
        rw [← hseg, hhead i hi] at hconst
        cases hconst
      exact congrArg Except.ok hglue.symm
  · rw [constant, if_neg htext, built_cons_constant]
    cases s.built nested with
    | error e => rfl
    | ok fs =>
      rw [String.ofList_append]
      rfl

end Scan

end SceneExpr
