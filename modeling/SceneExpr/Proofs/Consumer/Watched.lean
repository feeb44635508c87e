import SceneExpr.Proofs.CallSite.Layout
import SceneExpr.Proofs.Consumer.Observed
import SceneExpr.Proofs.Segment

namespace SceneExpr

variable {σ α : Type}

def Callback.segment? : Callback α → Option Segment
  | .constant text => some (.constant text)
  | .literal _ span => some (.token span)
  | .call c _ => some (.token c.span)
  | .argument .. => none

/-- What parsing did to a consumer: its callbacks in order, the error of the run, and the state in
which the consumer was left. -/
structure Report (σ α : Type) where
  callbacks : List (Callback α)
  error : Option ParseError
  state : σ

namespace Report

def segments (r : Report σ α) : List Segment := r.callbacks.filterMap Callback.segment?

def ofResult : EStateM.Result ParseError (σ × List (Callback α)) Unit → Report σ α
  | .ok _ s => ⟨s.2, none, s.1⟩
  | .error e s => ⟨s.2, some e, s.1⟩

end Report

def Parser.watch (p : Parser) (kind : ValueKind) (text : String) (k : Consumer σ α) (s : σ) :
    Report σ α :=
  .ofResult (p.observe kind text k s)

/-- Watching changes nothing. -/
theorem Parser.feed_eq_watch (p : Parser) (kind : ValueKind) (text : String) (k : Consumer σ α)
    (s : σ) :
    p.feed kind text k s =
      match (p.watch kind text k s).error with
      | none => .ok () (p.watch kind text k s).state
      | some e => .error e (p.watch kind text k s).state := by
  rw [← p.withoutLog_observe, watch]
  rcases p.observe kind text k s with ⟨_, s'⟩ | ⟨e, s'⟩ <;> rfl

/-- Arguments that come back are no segments. -/
theorem Argument.filterMap_segment?_callbacks (bs : List (Argument α)) :
    (bs.filterMap callback?).filterMap Callback.segment? = [] := by
  rw [List.filterMap_eq_nil_iff]
  intro x hx
  obtain ⟨b, -, hb⟩ := List.mem_filterMap.1 hx
  cases b with
  | raw text => cases hb
  | parsed kind source value =>
    obtain rfl := Option.some.inj hb
    rfl

theorem Told.segments {items : List Item} {log : List (Callback α)} (h : Told items log) :
    log.filterMap Callback.segment? = items.map Item.segment := by
  induction h with
  | nil => rfl
  | constant text _ ih => exact congrArg (_ :: ·) ih
  | literal value span _ ih => exact congrArg (_ :: ·) ih
  | call signature _ _ ih =>
    rw [List.filterMap_append, Argument.filterMap_segment?_callbacks]
    exact congrArg (_ :: ·) ih

/-- A consumer is told all that the scan holds, unless an argument of a call cannot be parsed; then
it is told what stands in front of that call. -/
theorem Parser.watch_cases (p : Parser) (kind : ValueKind) (text : String) (k : Consumer σ α)
    (s : σ) :
    ((p.watch kind text k s).error = (p.scan kind text).error ∧
      (p.watch kind text k s).segments = (p.scan kind text).items.map Item.segment) ∨
    ∃ before c signature after e,
      (p.scan kind text).items = before ++ .call c signature :: after ∧
      (p.watch kind text k s).error = some e ∧
      (p.watch kind text k s).segments = before.map Item.segment ∧ c.Raises e := by
  rw [watch, observe, feed, Consumer.take_eq]
  cases h : k.observed.takeItems (p.scan kind text).items (s, []) with
  | ok _ s' =>
    left
    obtain ⟨log, hlog, htold⟩ := Consumer.told_of_takeItems h
    have hsegments : s'.2.filterMap Callback.segment? =
        (p.scan kind text).items.map Item.segment := by
      rw [hlog, List.nil_append, htold.segments]
    cases he : (p.scan kind text).error with
    | none => exact ⟨rfl, hsegments⟩
    | some e => exact ⟨rfl, hsegments⟩
  | error e s' =>
    right
    obtain ⟨before, c, signature, after, as, kind', source, origin, bs, log, arguments, inner,
      hitems, harguments, htold, -, rfl, hs'⟩ := Consumer.told_of_takeItems_error h
    refine ⟨before, c, signature, after, _, hitems, rfl, ?_,
      kind', source, origin, inner, by simp [harguments], rfl⟩
    -- Neither the arguments that came back nor the one that failed are segments.
    change s'.2.filterMap Callback.segment? = before.map Item.segment
    rw [hs', List.nil_append, List.filterMap_append, List.filterMap_append, htold.segments,
      Argument.filterMap_segment?_callbacks, List.append_nil]
    exact List.append_nil _

/-- What a consumer is told holds the first part of what the scan holds, and an error lies behind
it. -/
theorem Parser.tiles_watch (p : Parser) (kind : ValueKind) (text : String) (k : Consumer σ α)
    (s : σ) {Fit : List Char → Prop} {n : Nat} {front back : List Char}
    (h : (p.scan kind text).Covers Fit n front back)
    (hraises : ∀ c signature e, .call c signature ∈ (p.scan kind text).items → c.Raises e →
      c.span.start ≤ e.span.start) :
    ∃ told untold, front = told ++ untold ∧
      Segment.Tiles n (p.watch kind text k s).segments told ∧
      ((p.watch kind text k s).error = none → untold = [] ∧ (p.scan kind text).error = none) ∧
      ∀ e, (p.watch kind text k s).error = some e → n + width told ≤ e.span.start := by
  rcases p.watch_cases kind text k s with
    ⟨he, hsegments⟩ | ⟨before, c, signature, after, e, hitems, he, hsegments, hc⟩
  · rw [he, hsegments]
    exact ⟨front, [], by simp, h.tiles, fun h => ⟨rfl, h⟩, h.le_start⟩
  · have htiles := h.tiles
    rw [hitems, List.map_append] at htiles
    obtain ⟨told, untold, rfl, htold, hcall⟩ := htiles.split
    have hspan : c.span.start = n + width told := by
      rw [List.map_cons, Item.segment] at hcall
      generalize c.span = span at hcall
      cases hcall
      rfl
    refine ⟨told, untold, rfl, hsegments ▸ htold, by simp [he], ?_⟩
    intro e' he'
    obtain rfl := Option.some.inj (he.symm.trans he')
    rw [← hspan]
    exact hraises c signature e (by simp [hitems]) hc

/-- A run without error is a run that is watched without error. -/
theorem Parser.watch_error_of_feed_ok {p : Parser} {kind : ValueKind} {text : String}
    {k : Consumer σ α} {s s' : σ} (h : p.feed kind text k s = .ok () s') :
    (p.watch kind text k s).error = none := by
  rw [p.feed_eq_watch] at h
  split at h
  next he => exact he
  next => simp at h

theorem Parser.watch_error_of_feed_error {p : Parser} {kind : ValueKind} {text : String}
    {k : Consumer σ α} {s s' : σ} {e : ParseError} (h : p.feed kind text k s = .error e s') :
    (p.watch kind text k s).error = some e := by
  rw [p.feed_eq_watch] at h
  split at h
  next => simp at h
  next e' he =>
    obtain ⟨rfl, -⟩ := EStateM.Result.error.inj h
    exact he

end SceneExpr
