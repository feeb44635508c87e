import Mathlib.Data.List.Forall2
import SceneExpr.Proofs.Consumer.Run

namespace SceneExpr

/-- One callback; an argument comes back as what the consumer made of it, or as its error. -/
inductive Callback (α : Type) where
  | constant (text : String)
  | literal (value : String) (span : Span)
  | call (call : Call α) (signature : Signature)
  | argument (kind : ValueKind) (source : String) (answer : Except ParseError α)

variable {σ α β : Type}

namespace Callback

def fails : Callback α → Bool
  | .argument _ _ (.error _) => true
  | _ => false

def handed? : Callback α → Option (ValueKind × String)
  | .argument kind source _ => some (kind, source)
  | _ => none

end Callback

/-- The same argument, whatever was made of it. -/
inductive Argument.Same : Argument α → Argument β → Prop where
  | raw (text : String) : Same (.raw text) (.raw text)
  | parsed (kind : ValueKind) (source : String) (a : α) (b : β) :
      Same (.parsed kind source a) (.parsed kind source b)

namespace Argument

def handed? : Argument α → Option (ValueKind × String)
  | .raw _ => none
  | .parsed kind source _ => some (kind, source)

/-- The callback that an argument was handed over with. -/
def callback? : Argument α → Option (Callback α)
  | .raw _ => none
  | .parsed kind source value => some (.argument kind source (.ok value))

theorem fails_of_mem_callbacks {bs : List (Argument α)} {x : Callback α}
    (hx : x ∈ bs.filterMap callback?) : x.fails = false := by
  obtain ⟨b, -, hb⟩ := List.mem_filterMap.1 hx
  cases b with
  | raw text => cases hb
  | parsed kind source value =>
    obtain rfl := Option.some.inj hb
    rfl

theorem bind_handed?_callback? (b : Argument α) :
    b.callback?.bind Callback.handed? = b.handed? := by
  cases b <;> rfl

theorem handed?_of_same {a : Argument α} {b : Argument β} (h : a.Same b) :
    a.handed? = b.handed? := by
  cases h <;> rfl

theorem filterMap_handed?_of_forall₂ {as : List (Argument α)} {bs : List (Argument β)}
    (h : List.Forall₂ Argument.Same as bs) : as.filterMap handed? = bs.filterMap handed? := by
  induction h with
  | nil => rfl
  | cons hsame _ ih => rw [List.filterMap_cons, List.filterMap_cons, handed?_of_same hsame, ih]

/-- What a consumer made something of was handed over as it was planned. -/
theorem filterMap_handed?_callback? {as : List (Argument α)} {bs : List (Argument β)}
    (h : List.Forall₂ Argument.Same as bs) :
    (bs.filterMap callback?).filterMap Callback.handed? = as.filterMap handed? := by
  rw [List.filterMap_filterMap, filterMap_handed?_of_forall₂ h]
  exact List.filterMap_congr fun b _ => b.bind_handed?_callback?

end Argument

def Item.handed : Item → List (ValueKind × String)
  | .call c _ => c.arguments.filterMap Argument.handed?
  | _ => []

/-- The argument that is handed over for parsing after the callbacks `before`: it belongs to the
call `c`, and `origin` tells where it comes from. -/
inductive Scan.HandsOver (scan : Scan) (before : List (Callback α)) (c : Call Origin)
    (signature : Signature) (kind : ValueKind) (source : String) (origin : Origin) : Prop where
  | intro {front back : List Item} {as bs : List (Argument Origin)} :
      scan.items = front ++ .call c signature :: back →
      c.arguments = as ++ .parsed kind source origin :: bs →
      before.filterMap Callback.handed? =
        front.flatMap Item.handed ++ as.filterMap Argument.handed? →
      HandsOver scan before c signature kind source origin

/-- The callbacks of a consumer that takes all of some items. -/
inductive Told : List Item → List (Callback α) → Prop where
  | nil : Told [] []
  | constant (text : String) {items : List Item} {log : List (Callback α)} :
      Told items log → Told (.constant text :: items) (.constant text :: log)
  | literal (value : String) (span : Span) {items : List Item} {log : List (Callback α)} :
      Told items log → Told (.literal value span :: items) (.literal value span :: log)
  | call {c : Call Origin} {arguments : List (Argument α)} (signature : Signature)
      {items : List Item} {log : List (Callback α)} :
      List.Forall₂ Argument.Same c.arguments arguments → Told items log →
      Told (.call c signature :: items) (arguments.filterMap Argument.callback? ++
        .call ⟨c.target, c.function, arguments, c.span⟩ signature :: log)

namespace Told

variable {items : List Item} {log : List (Callback α)}

theorem unfailing (h : Told items log) : ∀ x ∈ log, x.fails = false := by
  induction h with
  | nil => simp
  | constant text _ ih => exact List.forall_mem_cons.2 ⟨rfl, ih⟩
  | literal value span _ ih => exact List.forall_mem_cons.2 ⟨rfl, ih⟩
  | call signature _ _ ih =>
    exact List.forall_mem_append.2
      ⟨fun _ hx => Argument.fails_of_mem_callbacks hx, List.forall_mem_cons.2 ⟨rfl, ih⟩⟩

theorem handed (h : Told items log) :
    log.filterMap Callback.handed? = items.flatMap Item.handed := by
  induction h with
  | nil => rfl
  | constant text _ ih => exact ih
  | literal value span _ ih => exact ih
  | call signature hsame _ ih =>
    rw [List.filterMap_append, Argument.filterMap_handed?_callback? hsame, List.flatMap_cons]
    exact congrArg _ ih

/-- A consumer that takes all items is told of every call among them. -/
theorem exists_call (h : Told items log) {c : Call Origin} {signature : Signature}
    (hc : .call c signature ∈ items) :
    ∃ arguments, .call ⟨c.target, c.function, arguments, c.span⟩ signature ∈ log := by
  induction h with
  | nil => cases hc
  | constant text _ ih =>
    obtain ⟨arguments, harguments⟩ := ih (by simpa using hc)
    exact ⟨arguments, List.mem_cons_of_mem _ harguments⟩
  | literal value span _ ih =>
    obtain ⟨arguments, harguments⟩ := ih (by simpa using hc)
    exact ⟨arguments, List.mem_cons_of_mem _ harguments⟩
  | @call c' arguments' signature' items log _ _ ih =>
    rcases List.mem_cons.1 hc with heq | hc
    · obtain ⟨rfl, rfl⟩ := Item.call.inj heq
      exact ⟨arguments', by simp⟩
    · obtain ⟨arguments, harguments⟩ := ih hc
      exact ⟨arguments, List.mem_append_right _ (List.mem_cons_of_mem _ harguments)⟩

end Told

namespace Consumer

/-- The consumer with a list of its callbacks beside its state. -/
def observed (k : Consumer σ α) : Consumer (σ × List (Callback α)) α where
  constant text s := (k.constant text s.1, s.2 ++ [.constant text])
  literal value span s := (k.literal value span s.1, s.2 ++ [.literal value span])
  call call signature s := (k.call call signature s.1, s.2 ++ [.call call signature])
  nested kind source s :=
    match k.nested kind source s.1 with
    | .ok value s' => .ok value (s', s.2 ++ [.argument kind source (.ok value)])
    | .error e s' => .error e (s', s.2 ++ [.argument kind source (.error e)])

theorem observed_extends (k : Consumer σ α) : k.observed.Extends k where
  constant _ _ := rfl
  literal _ _ _ := rfl
  call _ _ _ := rfl
  nested kind source s := by
    simp only [observed]
    cases k.nested kind source s.1 <;> rfl

end Consumer

def Parser.observe (p : Parser) (kind : ValueKind) (text : String) (k : Consumer σ α) (s : σ) :
    EStateM.Result ParseError (σ × List (Callback α)) Unit :=
  p.feed kind text k.observed (s, [])

def callbacks : EStateM.Result ParseError (σ × List (Callback α)) β → List (Callback α)
  | .ok _ s => s.2
  | .error _ s => s.2

/-- To be observed changes nothing. -/
theorem Parser.withoutLog_observe (p : Parser) (kind : ValueKind) (text : String)
    (k : Consumer σ α) (s : σ) : withoutLog (p.observe kind text k s) = p.feed kind text k s :=
  k.observed_extends.feed p kind text (s, [])

namespace Consumer

variable {k : Consumer σ α} {s s' : σ × List (Callback α)} {e : ParseError}

theorem same_of_takeArgument {a : Argument Origin} {b : Argument α}
    (h : k.observed.takeArgument a s = .ok b s') :
    a.Same b ∧ s'.2 = s.2 ++ b.callback?.toList := by
  cases a with
  | raw text =>
    obtain ⟨rfl, rfl⟩ := EStateM.Result.ok.inj h
    exact ⟨.raw text, (List.append_nil _).symm⟩
  | parsed kind source origin =>
    simp only [takeArgument, observed] at h
    cases hk : k.nested kind source s.1 with
    | error e t =>
      rw [hk] at h
      cases h
    | ok value t =>
      rw [hk] at h
      obtain ⟨rfl, rfl⟩ := EStateM.Result.ok.inj h
      exact ⟨.parsed kind source origin value, rfl⟩

/-- An observed consumer answers with the arguments it was handed and writes down nothing else. -/
theorem same_of_takeArguments {as : List (Argument Origin)} {bs : List (Argument α)}
    (h : k.observed.takeArguments as s = .ok bs s') :
    List.Forall₂ Argument.Same as bs ∧ s'.2 = s.2 ++ bs.filterMap Argument.callback? := by
  induction as generalizing s bs with
  | nil =>
    obtain ⟨rfl, rfl⟩ := EStateM.Result.ok.inj h
    exact ⟨.nil, (List.append_nil _).symm⟩
  | cons a as ih =>
    rw [takeArguments_cons] at h
    split at h
    next => cases h
    next b t hb =>
      split at h
      next => cases h
      next bs' t' hbs =>
        obtain ⟨rfl, rfl⟩ := EStateM.Result.ok.inj h
        obtain ⟨hsame, hlog⟩ := same_of_takeArgument hb
        obtain ⟨hall, hlogs⟩ := ih hbs
        refine ⟨.cons hsame hall, ?_⟩
        rw [hlogs, hlog]
        cases hcallback : b.callback? <;> simp [hcallback]

/-- A run over arguments that fails does so at one of them, after all in front of it came back. -/
theorem same_of_takeArguments_error {as : List (Argument Origin)}
    (h : k.observed.takeArguments as s = .error e s') :
    ∃ front kind source origin back bs inner,
      as = front ++ .parsed kind source origin :: back ∧
      List.Forall₂ Argument.Same front bs ∧ e = Origin.locate origin inner ∧
      s'.2 = s.2 ++ bs.filterMap Argument.callback? ++ [.argument kind source (.error inner)] := by
  obtain ⟨front, kind, source, origin, back, bs, t, inner, rfl, hfront, hk, rfl⟩ :=
    takeArguments_error h
  obtain ⟨hsame, hlog⟩ := same_of_takeArguments hfront
  refine ⟨front, kind, source, origin, back, bs, inner, rfl, hsame, rfl, ?_⟩
  simp only [observed] at hk
  cases hnested : k.nested kind source t.1 with
  | ok value u =>
    rw [hnested] at hk
    cases hk
  | error inner' u =>
    rw [hnested] at hk
    obtain ⟨rfl, rfl⟩ := EStateM.Result.error.inj hk
    rw [hlog]

theorem told_of_takeItems {items : List Item} (h : k.observed.takeItems items s = .ok () s') :
    ∃ log, s'.2 = s.2 ++ log ∧ Told items log := by
  induction items generalizing s with
  | nil =>
    obtain ⟨-, rfl⟩ := EStateM.Result.ok.inj h
    exact ⟨[], by simp, .nil⟩
  | cons i items ih =>
    rw [takeItems_cons] at h
    split at h
    next => cases h
    next t hi =>
      obtain ⟨log, hlog, htold⟩ := ih h
      cases i with
      | constant text =>
        obtain ⟨-, rfl⟩ := EStateM.Result.ok.inj hi
        exact ⟨_, by simp [hlog, observed], .constant text htold⟩
      | literal value span =>
        obtain ⟨-, rfl⟩ := EStateM.Result.ok.inj hi
        exact ⟨_, by simp [hlog, observed], .literal value span htold⟩
      | call c signature =>
        rw [takeItem_call] at hi
        split at hi
        next => cases hi
        next arguments u harguments =>
          obtain ⟨-, rfl⟩ := EStateM.Result.ok.inj hi
          obtain ⟨hsame, hu⟩ := same_of_takeArguments harguments
          exact ⟨_, by simp [hlog, hu, observed], .call signature hsame htold⟩

/-- A run over items that fails does so at an argument of a call, after all in front of that call
were taken and all arguments in front of it came back. -/
theorem told_of_takeItems_error {items : List Item}
    (h : k.observed.takeItems items s = .error e s') :
    ∃ before c signature after as kind source origin bs log arguments inner,
      items = before ++ .call c signature :: after ∧
      c.arguments = as ++ .parsed kind source origin :: bs ∧ Told before log ∧
      List.Forall₂ Argument.Same as arguments ∧ e = Origin.locate origin inner ∧
      s'.2 = s.2 ++ (log ++ arguments.filterMap Argument.callback?) ++
        [.argument kind source (.error inner)] := by
  obtain ⟨before, c, signature, after, t, hitems, hbefore, hcall⟩ := takeItems_error h
  obtain ⟨log, ht, htold⟩ := told_of_takeItems hbefore
  obtain ⟨as, kind, source, origin, bs, arguments, inner, harguments, hsame, he, hs'⟩ :=
    same_of_takeArguments_error hcall
  refine ⟨before, c, signature, after, as, kind, source, origin, bs, log, arguments, inner,
    hitems, harguments, htold, hsame, he, ?_⟩
  rw [hs', ht, List.append_assoc s.2]

end Consumer

/-- Where a list ends with its only failing callback, nothing follows a failing callback. -/
theorem eq_nil_of_fails_last {first before after : List (Callback α)} {x y : Callback α}
    (hfirst : ∀ z ∈ first, z.fails = false) (hx : x.fails = true)
    (h : first ++ [y] = before ++ x :: after) : after = [] ∧ first = before ∧ x = y := by
  rcases List.eq_nil_or_concat after with rfl | ⟨middle, last, rfl⟩
  · obtain ⟨hbefore, hlast⟩ := List.append_inj' h rfl
    exact ⟨rfl, hbefore, (List.cons.inj hlast).1.symm⟩
  · -- Then the failing callback is among the first ones, none of which fails.
    have h' : first ++ [y] = (before ++ x :: middle) ++ [last] := by simpa using h
    obtain ⟨rfl, -⟩ := List.append_inj' h' rfl
    have hfine := hfirst x (by simp)
    rw [hx] at hfine
    cases hfine

/-- When an error comes back for an argument, there is no callback any more, and the run fails with
the error as seen from the call whose argument it is. -/
theorem Parser.last_of_argument_error {p : Parser} {kind : ValueKind} {text : String}
    {k : Consumer σ α} {s : σ} {before after : List (Callback α)} {kind' : ValueKind}
    {source : String} {e : ParseError}
    (h : callbacks (p.observe kind text k s) =
      before ++ .argument kind' source (.error e) :: after) :
    after = [] ∧ ∃ c signature origin s',
      (p.scan kind text).HandsOver before c signature kind' source origin ∧
      p.observe kind text k s = .error (origin.locate e) s' := by
  rw [observe, feed, Consumer.take_eq] at h ⊢
  cases hrun : k.observed.takeItems (p.scan kind text).items (s, []) with
  | ok _ s' =>
    obtain ⟨log, hlog, htold⟩ := Consumer.told_of_takeItems hrun
    have hcallbacks : s'.2 = before ++ .argument kind' source (.error e) :: after := by
      rw [← h, hrun]
      cases (p.scan kind text).error <;> rfl
    have hmem : Callback.argument kind' source (.error e) ∈ log := by
      rw [List.nil_append] at hlog
      simp [← hlog, hcallbacks]
    cases htold.unfailing _ hmem
  | error e' s' =>
    rw [hrun] at h
    obtain ⟨front, c, signature, back, as, kind'', source', origin, bs, log, arguments, inner,
      hitems, harguments, htold, hsame, rfl, hs'⟩ := Consumer.told_of_takeItems_error hrun
    have hfine : ∀ x ∈ log ++ arguments.filterMap Argument.callback?, x.fails = false :=
      List.forall_mem_append.2 ⟨htold.unfailing, fun _ hx => Argument.fails_of_mem_callbacks hx⟩
    rw [List.nil_append] at hs'
    obtain ⟨hafter, hbefore, heq⟩ := eq_nil_of_fails_last
      (x := .argument kind' source (.error e)) hfine rfl (hs'.symm.trans h)
    obtain ⟨rfl, rfl, he⟩ := Callback.argument.inj heq
    obtain rfl := Except.error.inj he
    refine ⟨hafter, c, signature, origin, s', .intro hitems harguments ?_, rfl⟩
    rw [← hbefore, List.filterMap_append, htold.handed,
      Argument.filterMap_handed?_callback? hsame]

end SceneExpr
