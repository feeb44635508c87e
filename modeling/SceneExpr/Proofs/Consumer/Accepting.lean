import SceneExpr.Proofs.Consumer.Observed

namespace SceneExpr

variable {σ α β : Type}

/-- The consumer makes something of every argument. -/
def Consumer.Accepts (k : Consumer σ α) : Prop :=
  ∀ kind source s, ∃ value s', k.nested kind source s = .ok value s'

namespace Consumer

variable {k : Consumer σ α} {s s' : σ × List (Callback α)}

theorem Accepts.exists_takeArgument (hk : k.Accepts) (a : Argument Origin)
    (s : σ × List (Callback α)) :
    ∃ b s', k.observed.takeArgument a s = .ok b s' := by
  cases a with
  | raw text => exact ⟨.raw text, s, rfl⟩
  | parsed kind source origin =>
    obtain ⟨value, s', hvalue⟩ := hk kind source s.1
    refine ⟨.parsed kind source value, (s', s.2 ++ [.argument kind source (.ok value)]), ?_⟩
    simp only [takeArgument, observed, hvalue]

theorem Accepts.exists_takeArguments (hk : k.Accepts) (as : List (Argument Origin))
    (s : σ × List (Callback α)) :
    ∃ bs s', k.observed.takeArguments as s = .ok bs s' := by
  induction as generalizing s with
  | nil => exact ⟨[], s, rfl⟩
  | cons a as ih =>
    obtain ⟨b, t, ha⟩ := hk.exists_takeArgument a s
    obtain ⟨bs, s', has⟩ := ih t
    refine ⟨b :: bs, s', ?_⟩
    rw [takeArguments_cons, ha]
    dsimp only
    rw [has]

end Consumer

/-- Where a text is one call, an accepting consumer is handed its arguments, told of the call and of
nothing else. -/
theorem Parser.observe_of_scan {p : Parser} {kind : ValueKind} {text : String} {c : Call Origin}
    {signature : Signature} (h : p.scan kind text = ⟨[.call c signature], none⟩)
    {k : Consumer σ α} (hk : k.Accepts) (s : σ) :
    ∃ arguments s', List.Forall₂ Argument.Same c.arguments arguments ∧
      p.observe kind text k s = .ok () (s', arguments.filterMap Argument.callback? ++
        [.call ⟨c.target, c.function, arguments, c.span⟩ signature]) := by
  obtain ⟨arguments, ⟨s', log⟩, harguments⟩ := hk.exists_takeArguments c.arguments (s, [])
  obtain ⟨hsame, hlog⟩ := Consumer.same_of_takeArguments harguments
  obtain rfl : log = arguments.filterMap Argument.callback? := hlog
  refine ⟨arguments, k.call ⟨c.target, c.function, arguments, c.span⟩ signature s',
    hsame, ?_⟩
  rw [observe, feed, Consumer.take_eq, h]
  dsimp only
  rw [Consumer.takeItems_cons, Consumer.takeItem_call, harguments]
  rfl

end SceneExpr
