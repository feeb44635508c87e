import Mathlib.Logic.Relation
import SceneExpr.Proofs.Tree.Levels

namespace SceneExpr.Assembly

/-- A text of which some items have become fragments. -/
structure OpenText where
  kind : ValueKind
  fragments : List Fragment
  items : List Item
  error : Option ParseError

/-- A call of which some arguments are built. -/
structure OpenCall where
  call : Call Origin
  built : List (Argument Tree)
  left : List (Argument Origin)

/-- Where an argument belongs whose tree is not built yet. -/
structure Frame where
  text : OpenText
  call : OpenCall
  kind : ValueKind
  source : String
  origin : Origin

inductive State where
  | items (text : OpenText) (stack : List Frame)
  | arguments (call : OpenCall) (text : OpenText) (stack : List Frame)
  | returns (result : Except ParseError Tree) (stack : List Frame)

namespace OpenText

def ofScan (kind : ValueKind) (s : Scan) : OpenText := ⟨kind, [], s.items, s.error⟩

def push (t : OpenText) (f : Fragment) : OpenText := { t with fragments := t.fragments ++ [f] }

def result (t : OpenText) : Except ParseError Tree :=
  match t.error with
  | none => .ok (.node t.kind t.fragments)
  | some e => .error e

end OpenText

namespace OpenCall

def push (c : OpenCall) (a : Argument Tree) : OpenCall := { c with built := c.built ++ [a] }

def fragment (c : OpenCall) : Fragment :=
  .call ⟨c.call.target, c.call.function, c.built, c.call.span⟩

end OpenCall

/-- Turns to a text, unless too many others are waiting for its tree. -/
def ask (p : Parser) (kind : ValueKind) (source : String) (stack : List Frame) : State :=
  if stack.length ≤ p.options.maxDepth then .items (.ofScan kind (p.scan kind source)) stack
  else
    .returns (.error ((Fault.tooDeep p.options.maxDepth).error ⟨0, width source.toList⟩)) stack

def step (p : Parser) : State → Option State
  | .items text stack =>
    match text.items with
    | [] => some (.returns text.result stack)
    | .constant constant :: items =>
      some (.items ({ text with items := items }.push (.constant constant)) stack)
    | .literal value span :: items =>
      some (.items ({ text with items := items }.push (.literal value span)) stack)
    | .call c _ :: items =>
      some (.arguments ⟨c, [], c.arguments⟩ { text with items := items } stack)
  | .arguments call text stack =>
    match call.left with
    | [] => some (.items (text.push call.fragment) stack)
    | .raw value :: left =>
      some (.arguments ({ call with left := left }.push (.raw value)) text stack)
    | .parsed kind source origin :: left =>
      some (ask p kind source
        (⟨text, { call with left := left }, kind, source, origin⟩ :: stack))
  | .returns _ [] => none
  | .returns (.ok tree) (frame :: stack) =>
    some (.arguments (frame.call.push (.parsed frame.kind frame.source tree)) frame.text stack)
  | .returns (.error e) (frame :: stack) => some (.returns (.error (frame.origin.locate e)) stack)

/-- The state after so many steps, or after the last one if there are fewer. -/
def run (p : Parser) : Nat → State → State
  | 0, s => s
  | n + 1, s =>
    match step p s with
    | none => s
    | some s' => run p n s'

def Reaches (p : Parser) : State → State → Prop :=
  Relation.ReflTransGen fun s s' => step p s = some s'

variable {p : Parser}

/-- A state without successor is where all long enough runs end that reach it. -/
theorem Reaches.exists_run {s s' : State} (h : Reaches p s s') (hend : step p s' = none) :
    ∃ n, ∀ m, n ≤ m → run p m s = s' := by
  induction h using Relation.ReflTransGen.head_induction_on with
  | refl =>
    refine ⟨0, fun m _ => ?_⟩
    cases m with
    | zero => rfl
    | succ m => simp only [run, hend]
  | head hstep _ ih =>
    obtain ⟨n, hn⟩ := ih
    refine ⟨n + 1, fun m hm => ?_⟩
    obtain ⟨m, rfl⟩ : ∃ k, m = k + 1 := ⟨m - 1, by omega⟩
    simp only [run, hstep]
    exact hn m (by omega)

section Levels

variable {nested : ValueKind → String → Except ParseError Tree} {stack : List Frame}

/-- With one text more on the stack, results are those of `nested`. -/
def Answers (p : Parser) (nested : ValueKind → String → Except ParseError Tree)
    (stack : List Frame) : Prop :=
  ∀ kind source frame, Reaches p (ask p kind source (frame :: stack))
    (.returns (nested kind source) (frame :: stack))

variable {call : Call Origin} {text : OpenText} {built : List (Argument Tree)}
  {left : List (Argument Origin)}

theorem reaches_argument (h : Answers p nested stack) {a : Argument Origin} {b : Argument Tree}
    (ha : a.built nested = .ok b) :
    Reaches p (.arguments ⟨call, built, a :: left⟩ text stack)
      (.arguments ⟨call, built ++ [b], left⟩ text stack) := by
  cases a with
  | raw value =>
    obtain rfl := Except.ok.inj ha
    exact .single rfl
  | parsed kind source origin =>
    obtain ⟨tree, htree, rfl⟩ := Argument.exists_of_built_parsed ha
    refine .head rfl (.trans (h kind source _) (.single ?_))
    rw [htree]
    rfl

theorem reaches_of_argument_error (h : Answers p nested stack) {a : Argument Origin}
    {e : ParseError} (ha : a.built nested = .error e) :
    Reaches p (.arguments ⟨call, built, a :: left⟩ text stack) (.returns (.error e) stack) := by
  cases a with
  | raw value => cases ha
  | parsed kind source origin =>
    refine .head rfl (.trans (h kind source _) (.single ?_))
    unfold Argument.built at ha
    cases hnested : nested kind source with
    | ok tree =>
      simp only [hnested] at ha
      cases ha
    | error inner =>
      simp only [hnested] at ha
      obtain rfl := Except.error.inj ha
      rfl

theorem reaches_arguments (h : Answers p nested stack) {as : List (Argument Origin)}
    {bs : List (Argument Tree)}
    (has : List.Forall₂ (fun a b => Argument.built nested a = .ok b) as bs) :
    Reaches p (.arguments ⟨call, built, as ++ left⟩ text stack)
      (.arguments ⟨call, built ++ bs, left⟩ text stack) := by
  induction has generalizing built with
  | nil =>
    rw [List.append_nil]
    exact .refl
  | @cons a b as bs ha _ ih =>
    rw [List.append_cons built b bs]
    exact (reaches_argument h ha).trans ih

variable {kind : ValueKind} {fragments : List Fragment} {items : List Item}
  {error : Option ParseError}

theorem reaches_item (h : Answers p nested stack) {i : Item} {f : Fragment}
    (hi : i.built nested = .ok f) :
    Reaches p (.items ⟨kind, fragments, i :: items, error⟩ stack)
      (.items ⟨kind, fragments ++ [f], items, error⟩ stack) := by
  cases i with
  | constant value =>
    obtain rfl := Except.ok.inj hi
    exact .single rfl
  | literal value span =>
    obtain rfl := Except.ok.inj hi
    exact .single rfl
  | call c signature =>
    obtain ⟨arguments, harguments, rfl⟩ := Item.exists_of_built_call hi
    have hbuilt : Reaches p
        (.arguments ⟨c, [], c.arguments ++ []⟩ ⟨kind, fragments, items, error⟩ stack)
        (.arguments ⟨c, arguments, []⟩ ⟨kind, fragments, items, error⟩ stack) :=
      reaches_arguments h harguments
    rw [List.append_nil] at hbuilt
    exact .head rfl (.trans hbuilt (.single rfl))

theorem reaches_of_item_error (h : Answers p nested stack) {i : Item} {e : ParseError}
    (hi : i.built nested = .error e) :
    Reaches p (.items ⟨kind, fragments, i :: items, error⟩ stack)
      (.returns (.error e) stack) := by
  cases i with
  | constant value => cases hi
  | literal value span => cases hi
  | call c signature =>
    obtain ⟨before, a, after, bs, hsplit, hbefore, ha⟩ :=
      exists_of_mapM_eq_error (error_of_map_error hi)
    have hbuilt : Reaches p
        (.arguments ⟨c, [], before ++ a :: after⟩ ⟨kind, fragments, items, error⟩ stack)
        (.arguments ⟨c, bs, a :: after⟩ ⟨kind, fragments, items, error⟩ stack) :=
      reaches_arguments h (mapM_eq_ok_iff.1 hbefore)
    rw [← hsplit] at hbuilt
    exact .head rfl (.trans hbuilt (reaches_of_argument_error h ha))

theorem reaches_items (h : Answers p nested stack) {is : List Item} {fs : List Fragment}
    (his : List.Forall₂ (fun i f => Item.built nested i = .ok f) is fs) :
    Reaches p (.items ⟨kind, fragments, is ++ items, error⟩ stack)
      (.items ⟨kind, fragments ++ fs, items, error⟩ stack) := by
  induction his generalizing fragments with
  | nil =>
    rw [List.append_nil]
    exact .refl
  | @cons i f is fs hi _ ih =>
    rw [List.append_cons fragments f fs]
    exact (reaches_item h hi).trans ih

/-- A text is built as `buildWith` builds it. -/
theorem reaches_text (h : Answers p nested stack) (kind : ValueKind) (source : String) :
    Reaches p (.items (.ofScan kind (p.scan kind source)) stack)
      (.returns (p.buildWith nested kind source) stack) := by
  rw [Parser.buildWith_eq, Scan.built, OpenText.ofScan]
  cases hitems : (p.scan kind source).items.mapM (Item.built nested) with
  | ok fragments =>
    have hall : Reaches p
        (.items ⟨kind, [], (p.scan kind source).items ++ [], (p.scan kind source).error⟩ stack)
        (.items ⟨kind, fragments, [], (p.scan kind source).error⟩ stack) :=
      reaches_items h (mapM_eq_ok_iff.1 hitems)
    rw [List.append_nil] at hall
    refine .trans hall (.single ?_)
    rw [step, OpenText.result]
    cases (p.scan kind source).error <;> rfl
  | error e =>
    obtain ⟨before, i, after, fs, hsplit, hbefore, hi⟩ := exists_of_mapM_eq_error hitems
    rw [hsplit]
    exact (reaches_items h (mapM_eq_ok_iff.1 hbefore)).trans (reaches_of_item_error h hi)

end Levels

/-- Each text on the stack takes one of the levels. -/
theorem reaches_ask (p : Parser) (kind : ValueKind) (source : String) {stack : List Frame}
    {levels : Nat} (hlevels : stack.length + levels = p.options.maxDepth + 1) :
    Reaches p (ask p kind source stack) (.returns (p.enter levels kind source) stack) := by
  -- The texts on the stack and the levels left are as many as the limit allows, all the way.
  induction levels generalizing kind source stack with
  | zero =>
    rw [ask, if_neg (by omega)]
    exact .refl
  | succ levels ih =>
    rw [ask, if_pos (by omega)]
    refine reaches_text (fun kind' source' frame => ih kind' source' ?_) kind source
    rw [List.length_cons]
    omega

/-- Started with a text, the machine comes to rest with the result of building it. -/
theorem run_ask_ends (p : Parser) (kind : ValueKind) (text : String) :
    ∃ n, ∀ m, n ≤ m → run p m (ask p kind text []) = .returns (p.build kind text) [] := by
  rw [Parser.build_eq_enter]
  exact (reaches_ask p kind text (Nat.zero_add _)).exists_run rfl

end SceneExpr.Assembly
