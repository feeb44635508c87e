import SceneExpr.Catalog.Standard
import SceneExpr.Proofs.Tree.Height

namespace SceneExpr

variable {α β : Type}

def Argument.bare : Argument α → Argument Unit
  | .raw text => .raw text
  | .parsed kind source _ => .parsed kind source ()

def Call.bare (c : Call α) : Call Unit :=
  ⟨c.target, c.function, c.arguments.map Argument.bare, c.span⟩

/-- An event as far as a tree tells: the signature of a call is left out, and what was made of its
arguments. -/
inductive BareEvent where
  | constant (depth : Nat) (text : String)
  | literal (depth : Nat) (value : String) (span : Span)
  | call (depth : Nat) (call : Call Unit)
  | nested (depth : Nat) (kind : ValueKind) (text : String)

namespace BareEvent

def isCall : BareEvent → Bool
  | .call _ _ => true
  | _ => false

def isNested : BareEvent → Bool
  | .nested _ _ _ => true
  | _ => false

end BareEvent

def Event.bare : Event → BareEvent
  | .constant depth text => .constant depth text
  | .literal depth value span => .literal depth value span
  | .call depth c _ => .call depth c.bare
  | .nested depth kind text => .nested depth kind text

namespace Tree

mutual

def events (depth : Nat) : Tree → List BareEvent
  | .node _ fragments => fragmentsEvents depth fragments

def fragmentsEvents (depth : Nat) : List Fragment → List BareEvent
  | [] => []
  | f :: fs => fragmentEvents depth f ++ fragmentsEvents depth fs

def fragmentEvents (depth : Nat) : Fragment → List BareEvent
  | .constant text => [.constant depth text]
  | .literal value span => [.literal depth value span]
  | .call ⟨target, function, arguments, span⟩ =>
    argumentsEvents depth arguments ++
      [.call depth (Call.bare ⟨target, function, arguments, span⟩)]

def argumentsEvents (depth : Nat) : List (Argument Tree) → List BareEvent
  | [] => []
  | a :: as => argumentEvents depth a ++ argumentsEvents depth as

def argumentEvents (depth : Nat) : Argument Tree → List BareEvent
  | .raw _ => []
  | .parsed kind source tree => .nested depth kind source :: events (depth + 1) tree

end

mutual

theorem countP_events (depth : Nat) (t : Tree) :
    (t.events depth).countP BareEvent.isCall = t.callCount := by
  cases t with
  | node kind fragments => exact countP_fragmentsEvents depth fragments

theorem countP_fragmentsEvents (depth : Nat) (fs : List Fragment) :
    (fragmentsEvents depth fs).countP BareEvent.isCall = fragmentsCallCount fs := by
  cases fs with
  | nil => rfl
  | cons f fs =>
    rw [fragmentsEvents, fragmentsCallCount, List.countP_append, countP_fragmentEvents,
      countP_fragmentsEvents]

theorem countP_fragmentEvents (depth : Nat) (f : Fragment) :
    (fragmentEvents depth f).countP BareEvent.isCall = fragmentCallCount f := by
  cases f with
  | constant text => rfl
  | literal value span => rfl
  | call c =>
    cases c with
    | mk target function arguments span =>
      rw [fragmentEvents, fragmentCallCount, List.countP_append, countP_argumentsEvents,
        Nat.add_comm]
      rfl

theorem countP_argumentsEvents (depth : Nat) (as : List (Argument Tree)) :
    (argumentsEvents depth as).countP BareEvent.isCall = argumentsCallCount as := by
  cases as with
  | nil => rfl
  | cons a as =>
    rw [argumentsEvents, argumentsCallCount, List.countP_append, countP_argumentEvents,
      countP_argumentsEvents]

theorem countP_argumentEvents (depth : Nat) (a : Argument Tree) :
    (argumentEvents depth a).countP BareEvent.isCall = argumentCallCount a := by
  cases a with
  | raw text => rfl
  | parsed kind source t => exact countP_events (depth + 1) t

end

end Tree

/-- The events of an argument, when those of its tree are `below`. -/
def Argument.eventsOver (depth : Nat) (below : Tree → List BareEvent) :
    Argument Tree → List BareEvent
  | .raw _ => []
  | .parsed kind source tree => .nested depth kind source :: below tree

namespace Fragment

def event (depth : Nat) : Fragment → BareEvent
  | .constant text => .constant depth text
  | .literal value span => .literal depth value span
  | .call c => .call depth c.bare

def arguments : Fragment → List (Argument Tree)
  | .call c => c.arguments
  | _ => []

theorem exists_of_mem_arguments {f : Fragment} {a : Argument Tree} (h : a ∈ f.arguments) :
    ∃ c, f = .call c ∧ a ∈ c.arguments := by
  cases f with
  | constant text => simp [arguments] at h
  | literal value span => simp [arguments] at h
  | call c => exact ⟨c, rfl, h⟩

def eventsOver (depth : Nat) (below : Tree → List BareEvent) (f : Fragment) : List BareEvent :=
  f.arguments.flatMap (Argument.eventsOver depth below) ++ [f.event depth]

end Fragment

namespace Tree

theorem argumentsEvents_eq (depth : Nat) (as : List (Argument Tree)) :
    argumentsEvents depth as = as.flatMap (Argument.eventsOver depth (events (depth + 1))) := by
  induction as with
  | nil => rfl
  | cons a as ih =>
    rw [argumentsEvents, List.flatMap_cons, ih]
    cases a <;> rfl

theorem events_eq (depth : Nat) (t : Tree) :
    t.events depth = t.fragments.flatMap (Fragment.eventsOver depth (events (depth + 1))) := by
  cases t with
  | node kind fragments =>
    rw [events, Tree.fragments]
    induction fragments with
    | nil => rfl
    | cons f fs ih =>
      rw [fragmentsEvents, List.flatMap_cons, ih]
      cases f with
      | constant text => rfl
      | literal value span => rfl
      | call c =>
        cases c
        rw [fragmentEvents, argumentsEvents_eq]
        rfl

end Tree

namespace EventLog

/-- Whatever the log holds, the run succeeds with a result that fits and adds the events to the
log. -/
def Adds (run : EStateM ParseError EventLog β) (events : List BareEvent)
    (Fits : β → Prop) : Prop :=
  ∀ log, ∃ b added, run log = .ok b (log ++ added) ∧ added.map Event.bare = events ∧ Fits b

namespace Adds

variable {run : EStateM ParseError EventLog α} {next : α → EStateM ParseError EventLog β}
  {first second : List BareEvent} {Fits : α → Prop} {Fits' : β → Prop}

theorem pure {b : β} (h : Fits' b) : Adds (Pure.pure b) [] Fits' := fun log =>
  ⟨b, [], congrArg (EStateM.Result.ok b) (List.append_nil log).symm, rfl, h⟩

theorem bind (h : Adds run first Fits) (hnext : ∀ a, Fits a → Adds (next a) second Fits') :
    Adds (run >>= next) (first ++ second) Fits' := by
  intro log
  obtain ⟨a, added, hrun, hfirst, ha⟩ := h log
  obtain ⟨b, more, hmore, hsecond, hb⟩ := hnext a ha (log ++ added)
  refine ⟨b, added ++ more, ?_, by rw [List.map_append, hfirst, hsecond], hb⟩
  simp only [Bind.bind, EStateM.bind, hrun, hmore, List.append_assoc]

theorem add (e : Event) : Adds (modify (· ++ [e])) [e.bare] fun _ => True := fun _ =>
  ⟨(), [e], rfl, rfl, trivial⟩

end Adds

variable {depth : Nat} {N : ValueKind → String → EStateM ParseError EventLog Nat}
  {nested : ValueKind → String → Except ParseError Tree} {below : Tree → List BareEvent}

theorem adds_takeArgument {a : Argument Origin} {b : Argument Tree} (hb : a.built nested = .ok b)
    (hN : ∀ kind source u, b = .parsed kind source u →
      Adds (N kind source) (below u) fun _ => True) :
    Adds ((recorder depth N).takeArgument a) (b.eventsOver depth below) (·.bare = b.bare) := by
  cases a with
  | raw text =>
    obtain rfl := Except.ok.inj hb
    exact .pure rfl
  | parsed kind source origin =>
    obtain ⟨u, -, rfl⟩ := Argument.exists_of_built_parsed hb
    intro log
    obtain ⟨n, added, hrun, hadded, -⟩ :=
      hN kind source u rfl (log ++ [.nested depth kind source])
    refine ⟨.parsed kind source n, .nested depth kind source :: added, ?_, ?_, rfl⟩
    · simp only [Consumer.takeArgument, recorder, hrun, List.append_assoc, List.singleton_append]
    · rw [List.map_cons, hadded]
      rfl

theorem adds_takeArguments {as : List (Argument Origin)} {bs : List (Argument Tree)}
    (hbs : List.Forall₂ (fun a b => Argument.built nested a = .ok b) as bs)
    (hN : ∀ kind source u, .parsed kind source u ∈ bs →
      Adds (N kind source) (below u) fun _ => True) :
    Adds ((recorder depth N).takeArguments as) (bs.flatMap (Argument.eventsOver depth below))
      (·.map Argument.bare = bs.map Argument.bare) := by
  induction hbs with
  | nil => exact .pure rfl
  | @cons a b as bs hb _ ih =>
    have ha : Adds ((recorder depth N).takeArgument a) (b.eventsOver depth below)
        (·.bare = b.bare) :=
      adds_takeArgument hb fun kind source u hu => hN kind source u (hu ▸ List.mem_cons_self)
    have has := ih fun kind source u hu => hN kind source u (List.mem_cons_of_mem b hu)
    rw [List.flatMap_cons]
    refine ha.bind fun a' ha' => ?_
    rw [← List.append_nil (bs.flatMap _)]
    refine has.bind fun as' has' => .pure ?_
    rw [List.map_cons, List.map_cons, ha', has']

theorem adds_takeItem {i : Item} {f : Fragment} (hf : i.built nested = .ok f)
    (hN : ∀ kind source u, .parsed kind source u ∈ f.arguments →
      Adds (N kind source) (below u) fun _ => True) :
    Adds ((recorder depth N).takeItem i) (f.eventsOver depth below) fun _ => True := by
  cases i with
  | constant text =>
    obtain rfl := Except.ok.inj hf
    exact .add (.constant depth text)
  | literal value span =>
    obtain rfl := Except.ok.inj hf
    exact .add (.literal depth value span)
  | call c signature =>
    obtain ⟨arguments, harguments, rfl⟩ := Item.exists_of_built_call hf
    refine (adds_takeArguments harguments hN).bind fun as has => ?_
    have hbare : (Event.call depth ⟨c.target, c.function, as, c.span⟩ signature).bare =
        Fragment.event depth (.call ⟨c.target, c.function, arguments, c.span⟩) := by
      simp only [Event.bare, Call.bare, Fragment.event, has]
    rw [← hbare]
    exact .add _

theorem adds_takeItems {is : List Item} {fs : List Fragment}
    (hfs : List.Forall₂ (fun i f => Item.built nested i = .ok f) is fs)
    (hN : ∀ f ∈ fs, ∀ kind source u, .parsed kind source u ∈ f.arguments →
      Adds (N kind source) (below u) fun _ => True) :
    Adds ((recorder depth N).takeItems is) (fs.flatMap (Fragment.eventsOver depth below))
      fun _ => True := by
  induction hfs with
  | nil => exact .pure trivial
  | @cons i f is fs hf _ ih =>
    rw [List.flatMap_cons]
    exact (adds_takeItem hf (hN f List.mem_cons_self)).bind fun _ _ =>
      ih fun g hg => hN g (List.mem_cons_of_mem f hg)

/-- Where a tree can be built, a recorder that parses the arguments succeeds, and its events are
those of the tree. -/
theorem adds_feed {p : Parser} {kind : ValueKind} {text : String} {t : Tree}
    (h : p.buildWith nested kind text = .ok t)
    (hN : ∀ f ∈ t.fragments, ∀ kind source u, .parsed kind source u ∈ f.arguments →
      Adds (N kind source) (below u) fun _ => True) :
    Adds (p.feed kind text (recorder depth N))
      (t.fragments.flatMap (Fragment.eventsOver depth below))
      fun _ => True := by
  obtain ⟨fragments, rfl, herror, hfragments⟩ := Parser.buildWith_eq_ok_iff.1 h
  rw [← List.append_nil (List.flatMap _ _), Parser.feed, Consumer.take, herror]
  exact (adds_takeItems hfragments hN).bind fun _ _ => .pure trivial

theorem adds_recordWithin {p : Parser} {levels limit : Nat} {kind : ValueKind} {text : String}
    {t : Tree} (h : p.enter levels kind text = .ok t) (hlimit : t.height ≤ limit) :
    Adds (recordWithin p limit depth kind text) (t.events depth) fun _ => True := by
  induction levels generalizing limit depth kind text t with
  | zero => cases h
  | succ levels ih =>
    rw [Tree.events_eq]
    have hargument (f : Fragment) (hf : f ∈ t.fragments) (kind' : ValueKind) (source : String)
        (u : Tree) (hu : .parsed kind' source u ∈ f.arguments) :
        u.height < t.height ∧ p.enter levels kind' source = .ok u := by
      obtain ⟨c, rfl, hc⟩ := Fragment.exists_of_mem_arguments hu
      exact ⟨Tree.height_lt hf hc, (Parser.argument_of_buildWith h hf hc).1⟩
    cases limit with
    | zero =>
      refine adds_feed h fun f hf kind' source u hu => ?_
      have := (hargument f hf kind' source u hu).1
      omega
    | succ limit =>
      refine adds_feed h fun f hf kind' source u hu => ?_
      obtain ⟨hheight, hbuilt⟩ := hargument f hf kind' source u hu
      have hadds : Adds (recordWithin p limit (depth + 1) kind' source) (u.events (depth + 1))
          fun _ => True := ih hbuilt (by omega)
      intro log
      obtain ⟨_, added, hadded, hevents, -⟩ := hadds log
      refine ⟨(log ++ added).length - log.length, added, ?_, hevents, trivial⟩
      simp only [bind, EStateM.bind, get, getThe, MonadStateOf.get, EStateM.get, hadded, pure,
        EStateM.pure]

/-- What a recorder that parses no argument is told of a tree. -/
theorem filter_eventsOver (depth : Nat) (fs : List Fragment) :
    (fs.flatMap (Fragment.eventsOver depth fun _ => [])).filter (!·.isNested) =
      fs.map (Fragment.event depth) := by
  have harguments (as : List (Argument Tree)) :
      (as.flatMap (Argument.eventsOver depth fun _ => [])).filter (!·.isNested) = [] := by
    rw [List.filter_eq_nil_iff]
    intro x hx
    obtain ⟨a, -, hx⟩ := List.mem_flatMap.1 hx
    cases a with
    | raw text => simp [Argument.eventsOver] at hx
    | parsed kind source u =>
      obtain rfl := List.mem_singleton.1 hx
      simp [BareEvent.isNested]
  induction fs with
  | nil => rfl
  | cons f fs ih =>
    have hf : [f.event depth].filter (!·.isNested) = [f.event depth] := by cases f <;> rfl
    rw [List.flatMap_cons, List.filter_append, ih, Fragment.eventsOver, List.filter_append,
      harguments, hf]
    rfl

end EventLog

/-- What an event log holds of a text with a tree is the tree, flattened; it does not matter how
many levels may be entered, if only those of the tree may. Its top level is what a recorder that
parses no argument is told. -/
theorem Parser.recorded_of_build {p : Parser} {kind : ValueKind} {text : String} {t : Tree}
    (h : p.build kind text = .ok t) :
    (∃ log, EventLog.record p kind text [] = .ok () log ∧ log.map Event.bare = t.events 0 ∧
      log.countP (·.bare.isCall) = t.callCount) ∧
    (∀ limit, t.height ≤ limit → ∃ log,
      EventLog.recordWithin p limit 0 kind text [] = .ok () log ∧
      log.map Event.bare = t.events 0) ∧
    ∃ log, EventLog.flat p kind text [] = .ok () log ∧
      (log.map Event.bare).filter (!·.isNested) = t.fragments.map (Fragment.event 0) := by
  have hwithin (limit : Nat) (hlimit : t.height ≤ limit) :
      ∃ log, EventLog.recordWithin p limit 0 kind text [] = .ok () log ∧
        log.map Event.bare = t.events 0 := by
    rw [build_eq_enter] at h
    have hadds : EventLog.Adds (EventLog.recordWithin p limit 0 kind text) (t.events 0)
        fun _ => True := EventLog.adds_recordWithin h hlimit
    obtain ⟨_, log, hrun, hlog, -⟩ := hadds []
    exact ⟨log, hrun, hlog⟩
  refine ⟨?_, hwithin, ?_⟩
  · obtain ⟨log, hrun, hlog⟩ := hwithin _ (height_le_sufficientDepth h)
    refine ⟨log, hrun, hlog, ?_⟩
    rw [← Tree.countP_events 0 t, ← hlog, List.countP_map]
    rfl
  · obtain ⟨nested, hnested⟩ := p.exists_nested
    rw [hnested] at h
    have hflat : EventLog.Adds (EventLog.flat p kind text)
        (t.fragments.flatMap (Fragment.eventsOver 0 fun _ => [])) fun _ => True :=
      EventLog.adds_feed h fun _ _ _ _ _ _ => .pure trivial
    obtain ⟨_, log, hrun, hlog, -⟩ := hflat []
    refine ⟨log, hrun, ?_⟩
    rw [hlog, EventLog.filter_eventsOver]

/-- A call with an argument and constant text. -/
theorem Parser.recorded_of_build_call :
    let p : Parser := ⟨.indexed "1.0" Catalog.Standard.mathFunctions, .empty, {}⟩
    let t : Tree := .node .number [.call ⟨.static, "Random",
      [.parsed .number "6" (.node .number [.constant "6"])], ⟨0, 9⟩⟩, .constant "+1"]
    let events : List BareEvent := [.nested 0 .number "6", .constant 1 "6",
      .call 0 ⟨.static, "Random", [.parsed .number "6" ()], ⟨0, 9⟩⟩, .constant 0 "+1"]
    p.build .number "Random(6)+1" = .ok t ∧ t.height ≤ 1 ∧
      (∃ log, EventLog.record p .number "Random(6)+1" [] = .ok () log ∧
        log.map Event.bare = events ∧
        log.countP (·.bare.isCall) = 1) ∧
      (∃ log, EventLog.recordWithin p 1 0 .number "Random(6)+1" [] = .ok () log ∧
        log.map Event.bare = events) ∧
      ∃ log, EventLog.flat p .number "Random(6)+1" [] = .ok () log ∧
        (log.map Event.bare).filter (!·.isNested) =
          [.call 0 ⟨.static, "Random", [.parsed .number "6" ()], ⟨0, 9⟩⟩,
            .constant 0 "+1"] := by
  intro p t events
  have ht : p.build .number "Random(6)+1" = .ok t := by cbv
  have hheight : t.height ≤ 1 := Nat.le_refl 1
  obtain ⟨hrecord, hwithin, hflat⟩ := recorded_of_build ht
  exact ⟨ht, hheight, hrecord, hwithin 1 hheight, hflat⟩

end SceneExpr
