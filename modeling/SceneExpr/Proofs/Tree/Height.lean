import Mathlib
import SceneExpr.EventLog
import SceneExpr.Proofs.Catalog.Found
import SceneExpr.Proofs.Tree.Levels

namespace SceneExpr

namespace Tree

mutual

/-- The number of levels of arguments. -/
def height : Tree → Nat
  | .node _ fragments => fragmentsHeight fragments

def fragmentsHeight : List Fragment → Nat
  | [] => 0
  | f :: fs => max (fragmentHeight f) (fragmentsHeight fs)

def fragmentHeight : Fragment → Nat
  | .constant _ => 0
  | .literal _ _ => 0
  | .call ⟨_, _, arguments, _⟩ => argumentsHeight arguments

def argumentsHeight : List (Argument Tree) → Nat
  | [] => 0
  | a :: as => max (argumentHeight a) (argumentsHeight as)

def argumentHeight : Argument Tree → Nat
  | .raw _ => 0
  | .parsed _ _ tree => height tree + 1

end

theorem fragmentHeight_le {f : Fragment} {fs : List Fragment} (h : f ∈ fs) :
    fragmentHeight f ≤ fragmentsHeight fs := by
  induction fs with
  | nil => simp at h
  | cons g gs ih =>
    rw [fragmentsHeight]
    rcases List.mem_cons.1 h with rfl | h
    · exact Nat.le_max_left _ _
    · exact Nat.le_trans (ih h) (Nat.le_max_right _ _)

theorem argumentHeight_le {a : Argument Tree} {as : List (Argument Tree)} (h : a ∈ as) :
    argumentHeight a ≤ argumentsHeight as := by
  induction as with
  | nil => simp at h
  | cons b bs ih =>
    rw [argumentsHeight]
    rcases List.mem_cons.1 h with rfl | h
    · exact Nat.le_max_left _ _
    · exact Nat.le_trans (ih h) (Nat.le_max_right _ _)

/-- The tree of an argument is lower than the tree it is part of. -/
theorem height_lt {t u : Tree} {c : Call Tree} {kind : ValueKind} {source : String}
    (hc : .call c ∈ t.fragments) (ha : .parsed kind source u ∈ c.arguments) :
    u.height < t.height := by
  cases t with
  | node kind' fragments =>
    have hf := fragmentHeight_le hc
    have ha := argumentHeight_le ha
    cases c
    rw [argumentHeight] at ha
    rw [fragmentHeight] at hf
    rw [height]
    exact Nat.lt_of_lt_of_le ha hf

theorem exists_of_fragmentsHeight {fs : List Fragment} {n : Nat} (h : fragmentsHeight fs = n + 1) :
    ∃ f ∈ fs, fragmentHeight f = n + 1 := by
  induction fs with
  | nil => simp [fragmentsHeight] at h
  | cons f fs ih =>
    rw [fragmentsHeight] at h
    rcases Nat.le_total (fragmentsHeight fs) (fragmentHeight f) with hle | hle
    · rw [Nat.max_eq_left hle] at h
      exact ⟨f, List.mem_cons_self, h⟩
    · rw [Nat.max_eq_right hle] at h
      obtain ⟨g, hg, hn⟩ := ih h
      exact ⟨g, List.mem_cons_of_mem f hg, hn⟩

theorem exists_of_argumentsHeight {as : List (Argument Tree)} {n : Nat}
    (h : argumentsHeight as = n + 1) :
    ∃ kind source u, Argument.parsed kind source u ∈ as ∧ u.height = n := by
  induction as with
  | nil => simp [argumentsHeight] at h
  | cons a as ih =>
    rw [argumentsHeight] at h
    rcases Nat.le_total (argumentsHeight as) (argumentHeight a) with hle | hle
    · rw [Nat.max_eq_left hle] at h
      cases a with
      | raw text => simp [argumentHeight] at h
      | parsed kind source u =>
        rw [argumentHeight] at h
        exact ⟨kind, source, u, List.mem_cons_self, Nat.add_right_cancel h⟩
    · rw [Nat.max_eq_right hle] at h
      obtain ⟨kind, source, u, hmem, hn⟩ := ih h
      exact ⟨kind, source, u, List.mem_cons_of_mem a hmem, hn⟩

/-- The height of a tree is that of its highest argument and one more. -/
theorem exists_argument_of_height {t : Tree} {n : Nat} (h : t.height = n + 1) :
    ∃ c kind source u, Fragment.call c ∈ t.fragments ∧
      Argument.parsed kind source u ∈ c.arguments ∧
      u.height = n := by
  cases t with
  | node kind fragments =>
    obtain ⟨f, hf, hn⟩ := exists_of_fragmentsHeight h
    cases f with
    | constant text => simp [fragmentHeight] at hn
    | literal value span => simp [fragmentHeight] at hn
    | call c =>
      cases c
      rw [fragmentHeight] at hn
      obtain ⟨kind', source, u, ha, hu⟩ := exists_of_argumentsHeight hn
      exact ⟨_, kind', source, u, hf, ha, hu⟩

end Tree

/-- A written argument has the parentheses of its call around it. -/
theorem Call.Place.exists_around {text : List Char} {c : Call Origin} {signature : Signature}
    {name : List Char} {written : List RawArgument} (h : c.Place text signature name written)
    {a : RawArgument} (ha : a ∈ written) :
    ∃ before after, text = before ++ a.text ++ after ∧ '(' ∈ before ∧ ')' ∈ after := by
  obtain ⟨body, past, ⟨front, rfl, -⟩, -, hwritten⟩ := h.exists_body
  obtain ⟨lead, trail, rfl, -⟩ := hwritten a ha
  exact ⟨front ++ (name ++ '(' :: lead), trail ++ ')' :: past, by simp, by simp, by simp⟩

/-- Without a default value the neutral value is no call. -/
theorem Parameter.neutralValue_eq (q : Parameter) :
    q.neutralValue = q.defaultValue ∨ '(' ∉ q.neutralValue.toList := by
  unfold neutralValue
  split
  · exact .inl rfl
  · right
    split <;> decide

namespace Parser

variable {p : Parser} {kind : ValueKind} {text : String} {levels : Nat} {t : Tree}

def parameters (p : Parser) : List Parameter := p.catalog.functions.flatMap (·.parameters)

def defaultHeight (p : Parser) (q : Parameter) : Nat :=
  match q.kind.valueKind? with
  | none => 0
  | some kind =>
    match p.build kind q.defaultValue with
    | .ok t => t.height
    | .error _ => 0

/-- The lengths of the default values with trees lower than `n`, each with one more. -/
def room (p : Parser) (n : Nat) (qs : List Parameter) : Nat :=
  ((qs.filter fun q => p.defaultHeight q < n).map fun q => q.defaultValue.length + 1).sum

theorem room_cons (p : Parser) (n : Nat) (q : Parameter) (qs : List Parameter) :
    p.room n (q :: qs) =
      (if p.defaultHeight q < n then q.defaultValue.length + 1 else 0) + p.room n qs := by
  simp only [room, List.filter_cons, decide_eq_true_eq]
  split
  · rw [List.map_cons, List.sum_cons]
  · rw [Nat.zero_add]

theorem room_mono (p : Parser) {m n : Nat} (hle : m ≤ n) (qs : List Parameter) :
    p.room m qs ≤ p.room n qs := by
  induction qs with
  | nil => exact Nat.le_refl _
  | cons q qs ih =>
    rw [room_cons, room_cons]
    split <;> split <;> omega

theorem room_le (p : Parser) (n : Nat) (qs : List Parameter) :
    p.room n qs ≤ (qs.map fun q => q.defaultValue.length + 1).sum := by
  induction qs with
  | nil => exact Nat.le_refl _
  | cons q qs ih =>
    rw [room_cons, List.map_cons, List.sum_cons]
    split <;> omega

/-- There is room for one more default value above its own tree. -/
theorem room_add_le {n : Nat} {q : Parameter} {qs : List Parameter} (hq : q ∈ qs)
    (hn : p.defaultHeight q = n) :
    p.room n qs + (q.defaultValue.length + 1) ≤ p.room (n + 1) qs := by
  induction qs with
  | nil => simp at hq
  | cons r qs ih =>
    rw [room_cons, room_cons]
    rcases List.mem_cons.1 hq with rfl | hq
    · have := p.room_mono (n.le_add_right 1) qs
      rw [if_neg (by omega), if_pos (by omega)]
      omega
    · have := ih hq
      split <;> split <;> omega

theorem defaultHeight_eq {q : Parameter} (hlevels : levels ≤ p.options.maxDepth + 1)
    (hkind : q.kind.valueKind? = some kind) (h : p.enter levels kind q.defaultValue = .ok t) :
    p.defaultHeight q = t.height := by
  have hbuild : p.build kind q.defaultValue = .ok t := by
    rw [build_eq_enter]
    exact enter_mono hlevels h
  simp only [defaultHeight, hkind, hbuild]

/-- Where there is a call there is an opening parenthesis. -/
theorem open_mem_of_call {c : Call Origin} {signature : Signature}
    (h : .call c signature ∈ (p.scan kind text).items) : '(' ∈ text.toList := by
  obtain ⟨name, written, hplace⟩ := ((p.readFrom_scan kind text).reads _ h).exists_place
  obtain ⟨body, past, ⟨front, hfront, -⟩, -, -⟩ := hplace.exists_body
  simp [hfront]

/-- The source of an argument is written between the parentheses of its call, or is the default
value of a parameter, or else holds no call. -/
theorem source_of_planned {c : Call Origin} {signature : Signature} {kind' : ValueKind}
    {source : String} {origin : Origin} (hitem : .call c signature ∈ (p.scan kind text).items)
    (ha : .parsed kind' source origin ∈ c.arguments) :
    (∃ before after, text.toList = before ++ source.toList ++ after ∧ '(' ∈ before ∧
      ')' ∈ after) ∨
      (∃ q ∈ p.parameters, q.kind.valueKind? = some kind' ∧ source = q.defaultValue) ∨
      '(' ∉ source.toList := by
  have hreads := (p.readFrom_scan kind text).reads _ hitem
  obtain ⟨name, written, hplace⟩ := hreads.exists_place
  cases hplace.supplied ha with
  | written hwritten hsource =>
    rw [hsource, String.toList_ofList]
    exact .inl (hplace.exists_around hwritten)
  | @standIn q hq hvisible hkind hsource =>
    right
    rw [hsource]
    split
    · refine q.neutralValue_eq.imp_left fun heq => ⟨q, ?_, hkind, heq⟩
      exact List.mem_flatMap.2 ⟨signature, hreads.lists.mem, hq⟩
    · exact .inr (by simp)

theorem height_eq_zero (hopen : '(' ∉ text.toList) (h : p.enter levels kind text = .ok t) :
    t.height = 0 := by
  cases levels with
  | zero => cases h
  | succ levels =>
    cases hheight : t.height with
    | zero => rfl
    | succ n =>
      obtain ⟨c, kind', source, u, hc, ha, -⟩ := Tree.exists_argument_of_height hheight
      obtain ⟨-, planned, signature, origin, hitem, -⟩ := argument_of_buildWith h hc ha
      exact absurd (open_mem_of_call hitem) hopen

/-- The length of the text and the room for default values bound the height of a tree. -/
theorem height_le_room (hlevels : levels ≤ p.options.maxDepth + 1)
    (h : p.enter levels kind text = .ok t) :
    t.height ≤ text.length + p.room t.height p.parameters := by
  induction levels generalizing kind text t with
  | zero => cases h
  | succ levels ih =>
    cases hheight : t.height with
    | zero => exact Nat.zero_le _
    | succ n =>
      obtain ⟨c, kind', source, u, hc, ha, rfl⟩ := Tree.exists_argument_of_height hheight
      obtain ⟨hu, planned, signature, origin, hitem, horigin⟩ := argument_of_buildWith h hc ha
      have hbound := ih (by omega) hu
      rcases source_of_planned hitem horigin with
        ⟨before, after, htext, hbefore, hafter⟩ | ⟨q, hq, hkind, rfl⟩ | hopen
      · have hlength := congrArg List.length htext
        have hroom := p.room_mono (u.height.le_add_right 1) p.parameters
        have := List.length_pos_of_mem hbefore
        have := List.length_pos_of_mem hafter
        simp only [List.length_append, String.length_toList] at hlength
        omega
      · have hroom := room_add_le hq (defaultHeight_eq (by omega) hkind hu)
        omega
      · have hzero := height_eq_zero hopen hu
        have hlength := List.length_pos_of_mem (open_mem_of_call hitem)
        rw [String.length_toList] at hlength
        omega

/-- An event log can enter all levels of a tree. -/
theorem height_le_sufficientDepth (h : p.build kind text = .ok t) :
    t.height ≤ EventLog.sufficientDepth p text := by
  rw [build_eq_enter] at h
  have hbound := height_le_room (Nat.le_refl _) h
  have hroom := p.room_le t.height p.parameters
  rw [parameters] at hbound hroom
  rw [List.map_flatMap, List.sum_eq_foldl] at hroom
  simp only [EventLog.sufficientDepth]
  omega

end Parser

end SceneExpr
