import SceneExpr.Proofs.CallSite.Shift
import SceneExpr.Proofs.Consumer.Watched
import SceneExpr.Tree.Build

namespace SceneExpr

variable {nested : ValueKind → String → Except ParseError Tree}

def Argument.built (nested : ValueKind → String → Except ParseError Tree) :
    Argument Origin → Except ParseError (Argument Tree)
  | .raw text => .ok (.raw text)
  | .parsed kind source origin =>
    match nested kind source with
    | .ok tree => .ok (.parsed kind source tree)
    | .error e => .error (origin.locate e)

def Item.built (nested : ValueKind → String → Except ParseError Tree) :
    Item → Except ParseError Fragment
  | .constant text => .ok (.constant text)
  | .literal value span => .ok (.literal value span)
  | .call c _ => (c.arguments.mapM (Argument.built nested)).map fun arguments =>
    .call ⟨c.target, c.function, arguments, c.span⟩

def Scan.built (nested : ValueKind → String → Except ParseError Tree) (s : Scan) :
    Except ParseError (List Fragment) := do
  let fragments ← s.items.mapM (Item.built nested)
  match s.error with
  | none => return fragments
  | some e => throw e

namespace Tree

def leaving {σ β : Type} (s : σ) : Except ParseError β → EStateM.Result ParseError σ β
  | .ok b => .ok b s
  | .error e => .error e s

def reached {σ : Type} : EStateM.Result ParseError σ Unit → Except ParseError σ
  | .ok _ s => .ok s
  | .error e _ => .error e

theorem takeArgument_builder (a : Argument Origin) (fs : List Fragment) :
    (builder nested).takeArgument a fs = leaving fs (a.built nested) := by
  cases a with
  | raw text => rfl
  | parsed kind source origin =>
    simp only [Consumer.takeArgument, builder, Argument.built]
    cases nested kind source <;> rfl

theorem takeArguments_builder (as : List (Argument Origin)) (fs : List Fragment) :
    (builder nested).takeArguments as fs = leaving fs (as.mapM (Argument.built nested)) := by
  induction as with
  | nil => rfl
  | cons a as ih =>
    rw [Consumer.takeArguments_cons, takeArgument_builder, List.mapM_cons]
    cases a.built nested with
    | error e => rfl
    | ok b =>
      dsimp only [leaving]
      rw [ih]
      cases as.mapM (Argument.built nested) <;> rfl

theorem takeItem_builder (i : Item) (fs : List Fragment) :
    (builder nested).takeItem i fs =
      match i.built nested with
      | .ok f => .ok () (fs ++ [f])
      | .error e => .error e fs := by
  cases i with
  | constant text => rfl
  | literal value span => rfl
  | call c signature =>
    rw [Consumer.takeItem_call, takeArguments_builder, Item.built]
    cases c.arguments.mapM (Argument.built nested) <;> rfl

theorem takeItems_builder (nested : ValueKind → String → Except ParseError Tree)
    (is : List Item) (fs : List Fragment) :
    reached ((builder nested).takeItems is fs) =
      (is.mapM (Item.built nested)).map fun gs => fs ++ gs := by
  induction is generalizing fs with
  | nil =>
    change Except.ok fs = Except.ok (fs ++ [])
    rw [List.append_nil]
  | cons i is ih =>
    rw [Consumer.takeItems_cons, takeItem_builder, List.mapM_cons]
    cases i.built nested with
    | error e => rfl
    | ok f =>
      dsimp only
      rw [ih]
      cases is.mapM (Item.built nested) with
      | error e => rfl
      | ok gs => exact congrArg Except.ok (List.append_assoc fs [f] gs)

end Tree

/-- A tree is built of the scan of its text. -/
theorem Parser.buildWith_eq (p : Parser) (kind : ValueKind) (text : String) :
    p.buildWith nested kind text = ((p.scan kind text).built nested).map (.node kind) := by
  have hitems := Tree.takeItems_builder nested (p.scan kind text).items []
  unfold buildWith feed Scan.built
  rw [Consumer.take_eq]
  -- Behind a failure the fragments collected so far do not count, so the two runs agree.
  generalize (Tree.builder nested).takeItems (p.scan kind text).items [] = run at hitems ⊢
  generalize (p.scan kind text).items.mapM (Item.built nested) = made at hitems ⊢
  cases made with
  | error e =>
    cases run with
    | ok _ fs => cases hitems
    | error e' fs =>
      obtain rfl := Except.error.inj hitems
      rfl
  | ok gs =>
    cases run with
    | ok _ fs =>
      obtain rfl := Except.ok.inj hitems
      cases (p.scan kind text).error <;> rfl
    | error e fs => cases hitems

/-- Trees are built with some way to build the trees of arguments, the same for all texts. -/
theorem Parser.exists_nested (p : Parser) : ∃ nested, p.build = p.buildWith nested := by
  unfold build
  cases p.options.maxDepth with
  | zero => exact ⟨_, rfl⟩
  | succ depth => exact ⟨_, rfl⟩

theorem Parser.built_of_buildWith {p : Parser} {kind : ValueKind} {text : String} {t : Tree}
    (h : p.buildWith nested kind text = .ok t) :
    (p.scan kind text).built nested = .ok t.fragments := by
  rw [buildWith_eq] at h
  obtain ⟨fs, hfs, rfl⟩ := exists_of_map_ok h
  exact hfs

theorem Scan.built_eq_ok_iff {s : Scan} {fs : List Fragment} :
    s.built nested = .ok fs ↔ s.error = none ∧ s.items.mapM (Item.built nested) = .ok fs := by
  unfold built
  cases s.items.mapM (Item.built nested) with
  | error e => exact ⟨fun h => (by cases h), fun h => (by cases h.2)⟩
  | ok gs => cases s.error with
    | none => exact ⟨fun h => ⟨rfl, h⟩, fun h => h.2⟩
    | some e => exact ⟨fun h => (by cases h), fun h => (by cases h.1)⟩

/-- Only the outermost spans move: what is nested in arguments has offsets of its own. -/
def Fragment.shift (f : Fragment) (n : Nat) : Fragment :=
  match f with
  | .constant text => .constant text
  | .literal value span => .literal value (span.shift n)
  | .call c => .call { c with span := c.span.shift n }

section Shift

variable (nested : ValueKind → String → Except ParseError Tree) (n : Nat)

theorem Argument.built_shift (a : Argument Origin) :
    (a.shift n).built nested = shiftResult n id (a.built nested) := by
  cases a with
  | raw text => rfl
  | parsed kind source origin =>
    simp only [shift, built, Origin.locate_shift]
    cases nested kind source <;> rfl

/-- What does no more than shift each of its inputs shifts a list of them. -/
theorem mapM_shift {α β : Type} {f : α → Except ParseError β} {move : α → α}
    {move' : β → β} (h : ∀ a, f (move a) = shiftResult n move' (f a)) (as : List α) :
    (as.map move).mapM f = shiftResult n (List.map move') (as.mapM f) := by
  induction as with
  | nil => rfl
  | cons a as ih =>
    rw [List.map_cons, List.mapM_cons, List.mapM_cons, h, ih]
    cases f a with
    | error e => rfl
    | ok b => cases as.mapM f <;> rfl

theorem Item.built_shift (i : Item) :
    (i.shift n).built nested = shiftResult n (·.shift n) (i.built nested) := by
  cases i with
  | constant text => rfl
  | literal value span => rfl
  | call c signature =>
    have harguments := mapM_shift n (Argument.built_shift nested n) c.arguments
    rw [List.map_id_fun] at harguments
    change ((c.arguments.map (·.shift n)).mapM (Argument.built nested)).map _ = _
    rw [harguments]
    apply map_shiftResult
    intro arguments
    rfl

theorem Scan.built_shift (s : Scan) :
    (s.shift n).built nested = shiftResult n (List.map fun f => f.shift n) (s.built nested) := by
  have hitems := mapM_shift n (Item.built_shift nested n) s.items
  change ((s.items.map (·.shift n)).mapM (Item.built nested) >>= _) = _
  rw [hitems, built]
  cases s.items.mapM (Item.built nested) with
  | error e => rfl
  | ok fs =>
    have herror : (s.shift n).error = s.error.map fun e => e.shift n := rfl
    simp only [shiftResult, herror]
    cases s.error <;> rfl

end Shift

theorem Item.segment_of_built {i : Item} {f : Fragment} (h : i.built nested = .ok f) :
    f.segment = i.segment := by
  cases i with
  | constant text =>
    obtain rfl := Except.ok.inj h
    rfl
  | literal value span =>
    obtain rfl := Except.ok.inj h
    rfl
  | call c signature =>
    obtain ⟨arguments, -, rfl⟩ := exists_of_map_ok h
    rfl

theorem Item.mapM_cons_eq_ok_iff {i : Item} {is : List Item} {fs : List Fragment} :
    (i :: is).mapM (built nested) = .ok fs ↔
      ∃ f gs, i.built nested = .ok f ∧ is.mapM (built nested) = .ok gs ∧ fs = f :: gs := by
  rw [List.mapM_cons]
  cases i.built nested with
  | error e => exact ⟨fun h => (by cases h), fun ⟨f, gs, hf, _⟩ => (by cases hf)⟩
  | ok f =>
    cases is.mapM (built nested) with
    | error e => exact ⟨fun h => (by cases h), fun ⟨f, gs, _, hgs, _⟩ => (by cases hgs)⟩
    | ok gs =>
      constructor
      · intro h
        obtain rfl := Except.ok.inj h
        exact ⟨f, gs, rfl, rfl, rfl⟩
      · rintro ⟨f', gs', hf, hgs, rfl⟩
        obtain rfl := Except.ok.inj hf
        obtain rfl := Except.ok.inj hgs
        rfl

theorem Item.segments_of_mapM {is : List Item} {fs : List Fragment}
    (h : is.mapM (built nested) = .ok fs) : fs.map Fragment.segment = is.map segment := by
  induction is generalizing fs with
  | nil =>
    obtain rfl := Except.ok.inj h
    rfl
  | cons i is ih =>
    obtain ⟨f, gs, hf, hgs, rfl⟩ := mapM_cons_eq_ok_iff.1 h
    rw [List.map_cons, List.map_cons, segment_of_built hf, ih hgs]

namespace Scan

variable {s : Scan} {fs : List Fragment}

theorem segments_of_built (h : s.built nested = .ok fs) :
    fs.map Fragment.segment = s.items.map Item.segment :=
  Item.segments_of_mapM (built_eq_ok_iff.1 h).2

theorem built_cons_eq_ok_iff {i : Item} :
    (cons i s).built nested = .ok fs ↔
      ∃ f gs, i.built nested = .ok f ∧ s.built nested = .ok gs ∧ fs = f :: gs := by
  rw [built_eq_ok_iff]
  constructor
  · rintro ⟨herror, hitems⟩
    obtain ⟨f, gs, hf, hgs, rfl⟩ := Item.mapM_cons_eq_ok_iff.1 hitems
    exact ⟨f, gs, hf, built_eq_ok_iff.2 ⟨herror, hgs⟩, rfl⟩
  · rintro ⟨f, gs, hf, hgs, rfl⟩
    obtain ⟨herror, hitems⟩ := built_eq_ok_iff.1 hgs
    exact ⟨herror, Item.mapM_cons_eq_ok_iff.2 ⟨f, gs, hf, hitems, rfl⟩⟩

end Scan

end SceneExpr
