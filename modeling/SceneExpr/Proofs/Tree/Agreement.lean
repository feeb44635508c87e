import SceneExpr.Proofs.Tree.Levels

namespace SceneExpr

/-- The two results are the same, or else the first is an error of the given kind. -/
def AgreesBut {α : Type} (kind : ErrorKind) (r r' : Except ParseError α) : Prop :=
  r = r' ∨ ∃ e, r = .error e ∧ e.kind = kind

namespace AgreesBut

variable {α β : Type} {kind : ErrorKind} {r r' : Except ParseError α}

theorem refl (r : Except ParseError α) : AgreesBut kind r r := .inl rfl

theorem error {e : ParseError} (he : e.kind = kind) (r' : Except ParseError α) :
    AgreesBut kind (.error e) r' := .inr ⟨e, rfl, he⟩

theorem eq_ok (h : AgreesBut kind r r') {a : α} (hr : r = .ok a) : r' = .ok a := by
  rcases h with rfl | ⟨e, rfl, -⟩
  · exact hr
  · cases hr

theorem eq_error (h : AgreesBut kind r r') {e : ParseError} (hr : r = .error e)
    (he : e.kind ≠ kind) :
    r' = .error e := by
  rcases h with rfl | ⟨e', rfl, hkind⟩
  · exact hr
  · obtain rfl := Except.error.inj hr
    exact absurd hkind he

theorem bind {f f' : α → Except ParseError β} (h : AgreesBut kind r r')
    (hf : ∀ a, AgreesBut kind (f a) (f' a)) : AgreesBut kind (r >>= f) (r' >>= f') := by
  rcases h with rfl | ⟨e, rfl, he⟩
  · cases r with
    | ok a => exact hf a
    | error e => exact .refl _
  · exact .error he _

theorem map (f : α → β) (h : AgreesBut kind r r') : AgreesBut kind (r.map f) (r'.map f) := by
  rcases h with rfl | ⟨e, rfl, he⟩
  · exact .refl _
  · exact .error he _

theorem mapM {f f' : α → Except ParseError β} (h : ∀ a, AgreesBut kind (f a) (f' a))
    (as : List α) :
    AgreesBut kind (as.mapM f) (as.mapM f') := by
  induction as with
  | nil => exact .refl _
  | cons a as ih =>
    rw [List.mapM_cons, List.mapM_cons]
    exact (h a).bind fun b => ih.bind fun bs => .refl _

end AgreesBut

/-- The two scans are the same, or else the first is cut short by an error of the given kind. -/
def Scan.CutShort (kind : ErrorKind) (s s' : Scan) : Prop :=
  s = s' ∨ ∃ e more, s.error = some e ∧ e.kind = kind ∧ s'.items = s.items ++ more

namespace Scan.CutShort

variable {kind : ErrorKind} {s s' : Scan}

theorem refl (s : Scan) : CutShort kind s s := .inl rfl

theorem stopped {e : ParseError} (he : e.kind = kind) (s' : Scan) : CutShort kind (.stopped e) s' :=
  .inr ⟨e, s'.items, rfl, he, rfl⟩

theorem cons (i : Item) (h : CutShort kind s s') : CutShort kind (.cons i s) (.cons i s') := by
  rcases h with rfl | ⟨e, more, herror, he, hitems⟩
  · exact .refl _
  · exact .inr ⟨e, more, herror, he, congrArg (i :: ·) hitems⟩

theorem constant (text : List Char) (h : CutShort kind s s') :
    CutShort kind (.constant text s) (.constant text s') := by
  unfold Scan.constant
  split
  · exact h
  · exact h.cons _

end Scan.CutShort

/-- An error keeps its kind when it is seen from the call. -/
@[simp] theorem Origin.kind_locate (o : Origin) (e : ParseError) : (o.locate e).kind = e.kind := by
  cases o <;> rfl

section Built

variable {kind : ErrorKind} {nested nested' : ValueKind → String → Except ParseError Tree}

theorem Argument.built_agrees
    (hnested : ∀ kind' source, AgreesBut kind (nested kind' source) (nested' kind' source))
    (a : Argument Origin) : AgreesBut kind (a.built nested) (a.built nested') := by
  cases a with
  | raw text => exact .refl _
  | parsed kind' source origin =>
    simp only [built]
    rcases hnested kind' source with h | ⟨e, h, he⟩
    · rw [h]
      exact .refl _
    · rw [h]
      exact .error ((origin.kind_locate e).trans he) _

theorem Item.built_agrees
    (hnested : ∀ kind' source, AgreesBut kind (nested kind' source) (nested' kind' source))
    (i : Item) : AgreesBut kind (i.built nested) (i.built nested') := by
  cases i with
  | constant text => exact .refl _
  | literal value span => exact .refl _
  | call c signature => exact (AgreesBut.mapM (Argument.built_agrees hnested) c.arguments).map _

theorem Scan.built_agrees
    (hnested : ∀ kind' source, AgreesBut kind (nested kind' source) (nested' kind' source))
    {s s' : Scan} (h : CutShort kind s s') :
    AgreesBut kind (s.built nested) (s'.built nested') := by
  have hitems := AgreesBut.mapM (Item.built_agrees hnested) s.items
  rcases h with rfl | ⟨e, more, herror, he, hmore⟩
  · exact hitems.bind fun _ => .refl _
  · -- Behind the items of the first scan there is only its error.
    unfold built
    rw [hmore, herror, List.mapM_append, bind_assoc]
    exact hitems.bind fun _ => .error he _

namespace Parser

variable {p p' : Parser}

theorem buildWith_agrees
    (hnested : ∀ kind' source, AgreesBut kind (nested kind' source) (nested' kind' source))
    {kind' : ValueKind} {text : String}
    (hscan : Scan.CutShort kind (p.scan kind' text) (p'.scan kind' text)) :
    AgreesBut kind (p.buildWith nested kind' text) (p'.buildWith nested' kind' text) := by
  rw [buildWith_eq, buildWith_eq]
  exact (Scan.built_agrees hnested hscan).map _

end Parser

end Built

end SceneExpr
