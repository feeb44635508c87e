import SceneExpr.Consumer

namespace SceneExpr

variable {σ ω α : Type}

namespace Consumer

variable (k : Consumer σ α)

theorem takeArguments_cons (a : Argument Origin) (as : List (Argument Origin)) (s : σ) :
    k.takeArguments (a :: as) s =
      match k.takeArgument a s with
      | .error e s => .error e s
      | .ok a s =>
        match k.takeArguments as s with
        | .error e s => .error e s
        | .ok as s => .ok (a :: as) s := by
  simp only [takeArguments, bind, EStateM.bind, pure, EStateM.pure]
  rcases k.takeArgument a s with ⟨a', s'⟩ | ⟨e, s'⟩
  · dsimp only
    rcases k.takeArguments as s' with ⟨as', s''⟩ | ⟨e, s''⟩ <;> rfl
  · rfl

theorem takeItem_call (call : Call Origin) (signature : Signature) (s : σ) :
    k.takeItem (.call call signature) s =
      match k.takeArguments call.arguments s with
      | .error e s => .error e s
      | .ok as s =>
        .ok () (k.call ⟨call.target, call.function, as, call.span⟩ signature s) := by
  simp only [takeItem, bind, EStateM.bind]
  rcases k.takeArguments call.arguments s with ⟨as, s'⟩ | ⟨e, s'⟩ <;> rfl

theorem takeItems_cons (i : Item) (is : List Item) (s : σ) :
    k.takeItems (i :: is) s =
      match k.takeItem i s with
      | .error e s => .error e s
      | .ok _ s => k.takeItems is s := by
  simp only [takeItems, bind, EStateM.bind]
  rcases k.takeItem i s with ⟨_, s'⟩ | ⟨e, s'⟩ <;> rfl

theorem take_eq (scan : Scan) (s : σ) :
    k.take scan s =
      match k.takeItems scan.items s with
      | .error e s => .error e s
      | .ok _ s =>
        match scan.error with
        | none => .ok () s
        | some e => .error e s := by
  simp only [take, bind, EStateM.bind]
  rcases k.takeItems scan.items s with ⟨_, s'⟩ | ⟨e, s'⟩
  · dsimp only
    cases scan.error <;> rfl
  · rfl

variable {k} {s s' : σ} {e : ParseError}

theorem takeArguments_error {as : List (Argument Origin)} (h : k.takeArguments as s = .error e s') :
    ∃ front kind source origin back bs t inner,
      as = front ++ .parsed kind source origin :: back ∧
      k.takeArguments front s = .ok bs t ∧ k.nested kind source t = .error inner s' ∧
      e = Origin.locate origin inner := by
  induction as generalizing s with
  | nil => cases h
  | cons a as ih =>
    rw [takeArguments_cons] at h
    split at h
    next e' t ha =>
      obtain ⟨rfl, rfl⟩ := EStateM.Result.error.inj h
      cases a with
      | raw text => cases ha
      | parsed kind source origin =>
        simp only [takeArgument] at ha
        cases hk : k.nested kind source s with
        | ok value t' =>
          rw [hk] at ha
          cases ha
        | error inner t' =>
          rw [hk] at ha
          obtain ⟨rfl, rfl⟩ := EStateM.Result.error.inj ha
          exact ⟨[], kind, source, origin, as, [], s, inner, rfl, rfl, hk, rfl⟩
    next b t hb =>
      split at h
      next e' t' has =>
        obtain ⟨rfl, rfl⟩ := EStateM.Result.error.inj h
        obtain ⟨front, kind, source, origin, back, bs, u, inner, rfl, hfront, hk, he⟩ := ih has
        refine ⟨a :: front, kind, source, origin, back, b :: bs, u, inner, rfl, ?_, hk, he⟩
        rw [takeArguments_cons, hb]
        dsimp only
        rw [hfront]
      · simp at h

theorem takeItems_error {is : List Item} (h : k.takeItems is s = .error e s') :
    ∃ front c signature back t, is = front ++ .call c signature :: back ∧
      k.takeItems front s = .ok () t ∧ k.takeArguments c.arguments t = .error e s' := by
  induction is generalizing s with
  | nil => cases h
  | cons i is ih =>
    rw [takeItems_cons] at h
    split at h
    next e' t hi =>
      obtain ⟨rfl, rfl⟩ := EStateM.Result.error.inj h
      cases i with
      | constant text => cases hi
      | literal value span => cases hi
      | call c signature =>
        rw [takeItem_call] at hi
        split at hi
        next has =>
          obtain ⟨rfl, rfl⟩ := EStateM.Result.error.inj hi
          exact ⟨[], c, signature, is, s, rfl, rfl, has⟩
        · simp at hi
    next t hi =>
      obtain ⟨front, c, signature, back, u, rfl, hfront, has⟩ := ih h
      refine ⟨i :: front, c, signature, back, u, rfl, ?_, has⟩
      rw [takeItems_cons, hi]
      exact hfront

end Consumer

def withoutLog {β : Type} :
    EStateM.Result ParseError (σ × ω) β → EStateM.Result ParseError σ β
  | .ok b s => .ok b s.1
  | .error e s => .error e s.1

/-- The first consumer does what the second does and keeps something beside the state. -/
structure Consumer.Extends (k' : Consumer (σ × ω) α) (k : Consumer σ α) : Prop where
  constant : ∀ text s, (k'.constant text s).1 = k.constant text s.1
  literal : ∀ value span s, (k'.literal value span s).1 = k.literal value span s.1
  call : ∀ call signature s, (k'.call call signature s).1 = k.call call signature s.1
  nested : ∀ kind source s, withoutLog (k'.nested kind source s) = k.nested kind source s.1

namespace Consumer.Extends

variable {k' : Consumer (σ × ω) α} {k : Consumer σ α}

theorem takeArgument (h : k'.Extends k) (a : Argument Origin) (s : σ × ω) :
    withoutLog (k'.takeArgument a s) = k.takeArgument a s.1 := by
  cases a with
  | raw text => rfl
  | parsed kind source origin =>
    simp only [Consumer.takeArgument, ← h.nested]
    cases k'.nested kind source s <;> rfl

theorem takeArguments (h : k'.Extends k) (as : List (Argument Origin)) (s : σ × ω) :
    withoutLog (k'.takeArguments as s) = k.takeArguments as s.1 := by
  induction as generalizing s with
  | nil => rfl
  | cons a as ih =>
    rw [takeArguments_cons, takeArguments_cons, ← h.takeArgument]
    cases k'.takeArgument a s with
    | error e s' => rfl
    | ok b s' =>
      simp only [withoutLog, ← ih]
      cases k'.takeArguments as s' <;> rfl

theorem takeItem (h : k'.Extends k) (i : Item) (s : σ × ω) :
    withoutLog (k'.takeItem i s) = k.takeItem i s.1 := by
  cases i with
  | constant text => exact congrArg (EStateM.Result.ok ()) (h.constant text s)
  | literal value span => exact congrArg (EStateM.Result.ok ()) (h.literal value span s)
  | call c signature =>
    rw [takeItem_call, takeItem_call, ← h.takeArguments]
    cases k'.takeArguments c.arguments s with
    | error e s' => rfl
    | ok bs s' => exact congrArg (EStateM.Result.ok ()) (h.call _ signature s')

theorem takeItems (h : k'.Extends k) (is : List Item) (s : σ × ω) :
    withoutLog (k'.takeItems is s) = k.takeItems is s.1 := by
  induction is generalizing s with
  | nil => rfl
  | cons i is ih =>
    rw [takeItems_cons, takeItems_cons, ← h.takeItem]
    cases k'.takeItem i s with
    | error e s' => rfl
    | ok _ s' => exact ih s'

theorem feed (h : k'.Extends k) (p : Parser) (kind : ValueKind) (text : String) (s : σ × ω) :
    withoutLog (p.feed kind text k' s) = p.feed kind text k s.1 := by
  rw [Parser.feed, Parser.feed, take_eq, take_eq, ← h.takeItems]
  cases k'.takeItems (p.scan kind text).items s with
  | error e s' => rfl
  | ok _ s' => cases (p.scan kind text).error <;> rfl

end Consumer.Extends

end SceneExpr
