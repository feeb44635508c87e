import Mathlib
import SceneExpr.Proofs.Catalog.Order
import SceneExpr.Proofs.Grammar.Number.Step
import SceneExpr.Proofs.Grammar.Text.Step
import SceneExpr.Proofs.Scene.Order
import SceneExpr.Proofs.Tree.Agreement

namespace SceneExpr

/-- The two results are the same but for the wording of an error. -/
inductive Alike {α : Type} : Except ParseError α → Except ParseError α → Prop where
  | ok (a : α) : Alike (.ok a) (.ok a)
  | error {e e' : ParseError} : e.kind = e'.kind → e.span = e'.span →
      Alike (.error e) (.error e')

namespace Alike

variable {α β : Type} {r r' : Except ParseError α}

theorem refl (r : Except ParseError α) : Alike r r := by
  cases r with
  | ok a => exact .ok a
  | error e => exact .error rfl rfl

theorem bind {f f' : α → Except ParseError β} (h : Alike r r')
    (hf : ∀ a, Alike (f a) (f' a)) :
    Alike (r >>= f) (r' >>= f') := by
  cases h with
  | ok a => exact hf a
  | error hkind hspan => exact .error hkind hspan

theorem map (f : α → β) (h : Alike r r') : Alike (r.map f) (r'.map f) := by
  cases h with
  | ok a => exact .ok (f a)
  | error hkind hspan => exact .error hkind hspan

theorem mapM {f f' : α → Except ParseError β} (h : ∀ a, Alike (f a) (f' a)) (as : List α) :
    Alike (as.mapM f) (as.mapM f') := by
  induction as with
  | nil => exact .refl _
  | cons a as ih =>
    rw [List.mapM_cons, List.mapM_cons]
    exact (h a).bind fun b => ih.bind fun bs => .refl _

theorem mapError {ε : Type} {r r' : Except ε α} (h : r'.toOption = r.toOption)
    {f : ε → ParseError} (hkind : ∀ e e', (f e).kind = (f e').kind)
    (hspan : ∀ e e', (f e).span = (f e').span) :
    Alike (r.mapError f) (r'.mapError f) := by
  cases r with
  | ok a => cases r' with
    | ok a' =>
      obtain rfl := Option.some.inj h
      exact .ok _
    | error e' => cases h
  | error e => cases r' with
    | ok a' => cases h
    | error e' => exact .error (hkind e e') (hspan e e')

end Alike

inductive Scan.Alike : Scan → Scan → Prop where
  | refl (s : Scan) : Alike s s
  | error (items : List Item) {e e' : ParseError} : e.kind = e'.kind → e.span = e'.span →
      Alike ⟨items, some e⟩ ⟨items, some e'⟩

namespace Scan.Alike

variable {s s' : Scan}

theorem cons (i : Item) (h : Alike s s') : Alike (.cons i s) (.cons i s') := by
  cases h with
  | refl => exact .refl _
  | error items hkind hspan => exact .error (i :: items) hkind hspan

theorem constant (text : List Char) (h : Alike s s') :
    Alike (.constant text s) (.constant text s') := by
  unfold Scan.constant
  split
  · exact h
  · exact h.cons _

end Scan.Alike

section Built

variable {nested nested' : ValueKind → String → Except ParseError Tree}

theorem Argument.built_alike
    (hnested : ∀ kind source, Alike (nested kind source) (nested' kind source))
    (a : Argument Origin) : Alike (a.built nested) (a.built nested') := by
  cases a with
  | raw text => exact .refl _
  | parsed kind source origin =>
    have h := hnested kind source
    simp only [built]
    generalize nested kind source = r at h ⊢
    generalize nested' kind source = r' at h ⊢
    cases h with
    | ok tree => exact .refl _
    | error hkind hspan =>
      cases origin with
      | written start => exact .error hkind (congrArg (·.shift start) hspan)
      | standIn list => exact .error hkind rfl

theorem Item.built_alike
    (hnested : ∀ kind source, Alike (nested kind source) (nested' kind source)) (i : Item) :
    Alike (i.built nested) (i.built nested') := by
  cases i with
  | constant text => exact .refl _
  | literal value span => exact .refl _
  | call c signature => exact (Alike.mapM (Argument.built_alike hnested) c.arguments).map _

theorem Scan.built_alike
    (hnested : ∀ kind source, SceneExpr.Alike (nested kind source) (nested' kind source))
    {s s' : Scan} (h : Alike s s') : SceneExpr.Alike (s.built nested) (s'.built nested') := by
  have hitems := SceneExpr.Alike.mapM (Item.built_alike hnested) s.items
  cases h with
  | refl => exact hitems.bind fun _ => .refl _
  | error items hkind hspan => exact hitems.bind fun _ => .error hkind hspan

end Built

/-- Two parsers under which the same sites stand for the same functions, whatever they make of the
others. -/
def Parser.FindsAlike (p p' : Parser) : Prop :=
  ∀ kind site, (Resolution.find p'.catalog p'.scene kind site).toOption =
    (Resolution.find p.catalog p.scene kind site).toOption

namespace Grammar

variable {p p' : Parser}

theorem Number.step_eq (hfind : p.FindsAlike p') (hoptions : p'.options = p.options) (cursor : Nat)
    (rest : List Char) : step p cursor rest = step p' cursor rest := by
  have hresolve : resolve? p' = resolve? p := by
    funext site
    rw [resolve?, resolve?, hfind]
  have hstrict : strictError? p' = strictError? p := by
    funext site
    rw [strictError?, strictError?, hoptions]
  rw [step, step, hresolve, hstrict]

namespace Text

/-- What a site that stands for nothing is blamed for is one kind of errors, and so is the place. -/
theorem resolve_alike (hfind : p.FindsAlike p') (site : CallSite) :
    Alike (resolve p site) (resolve p' site) := by
  unfold resolve
  split
  · refine .mapError (hfind .text site) (fun why why' => ?_) fun _ _ => rfl
    cases why <;> cases why' <;> cases howner : site.owner <;>
      simp only [CallSite.unknown, howner] <;> rfl
  · exact .refl _

theorem readToken_alike (hfind : p.FindsAlike p') (cursor : Nat) (cut : MarkedCut) :
    Alike (readToken p cursor cut) (readToken p' cursor cut) := by
  unfold readToken
  split
  · exact .refl _
  · unfold readCall
    cases CallSite.read cursor cut with
    | error e => exact .refl _
    | ok site =>
      have h := resolve_alike hfind site
      dsimp only
      generalize resolve p site = r at h ⊢
      generalize resolve p' site = r' at h ⊢
      cases h with
      | ok r => exact .refl _
      | error hkind hspan => exact .error hkind hspan

theorem afterGap_alike {s s' : Scan} (started : Bool) (gap : List Char) (h : s.Alike s') :
    (afterGap started gap s).Alike (afterGap started gap s') := by
  unfold afterGap
  split
  · exact h.constant gap
  · exact h

theorem scanFrom_alike (hfind : p.FindsAlike p') (cursor : Nat) (started : Bool)
    (rest : List Char) :
    (scanFrom p cursor started rest).Alike (scanFrom p' cursor started rest) := by
  induction cursor, started, rest using scan_induction (p := p) with
  | finish cursor started rest hcut =>
    rw [scanFrom_of_finish hcut, scanFrom_of_finish hcut]
    exact .refl _
  | gap cursor started rest cut e hcut hgap =>
    rw [scanFrom_of_gap hcut hgap, scanFrom_of_gap hcut hgap]
    exact .refl _
  | fail cursor started rest cut e hcut hgap hread =>
    have halike := readToken_alike hfind cursor cut
    rw [hread] at halike
    cases hread' : readToken p' cursor cut with
    | ok t =>
      rw [hread'] at halike
      cases halike
    | error e' =>
      rw [hread'] at halike
      cases halike with
      | error hkind hspan =>
        rw [scanFrom_of_fail hcut hgap hread, scanFrom_of_fail hcut hgap hread']
        exact afterGap_alike _ _ (.error [] hkind hspan)
  | token cursor started rest cut t hcut hgap hread ih =>
    have halike := readToken_alike hfind cursor cut
    rw [hread] at halike
    have hread' : readToken p' cursor cut = .ok t := by
      generalize readToken p' cursor cut = r at halike
      cases halike
      rfl
    rw [scanFrom_of_token hcut hgap hread, scanFrom_of_token hcut hgap hread']
    exact afterGap_alike _ _ (ih.cons t.item)

theorem scan_alike (hfind : p.FindsAlike p') (text : List Char) :
    (scan p text).Alike (scan p' text) := by
  unfold scan
  split
  · exact .refl _
  · exact scanFrom_alike hfind 0 false text

end Text

end Grammar

namespace Parser

variable {p p' : Parser}

theorem scan_alike (hfind : p.FindsAlike p') (hoptions : p'.options = p.options) (kind : ValueKind)
    (text : String) : (p.scan kind text).Alike (p'.scan kind text) := by
  cases kind with
  | number =>
    have hscan : p.scan .number text = p'.scan .number text :=
      Grammar.Number.scanFrom_congr (Grammar.Number.step_eq hfind hoptions) 0 [] text.toList
    rw [hscan]
    exact .refl _
  | text => exact Grammar.Text.scan_alike hfind text.toList

theorem enter_alike (hfind : p.FindsAlike p') (hoptions : p'.options = p.options) (levels : Nat)
    (kind : ValueKind) (text : String) :
    Alike (p.enter levels kind text) (p'.enter levels kind text) := by
  induction levels generalizing kind text with
  | zero => exact .error rfl rfl
  | succ levels ih =>
    change Alike (p.buildWith _ kind text) (p'.buildWith _ kind text)
    rw [buildWith_eq, buildWith_eq]
    exact (Scan.built_alike ih (scan_alike hfind hoptions kind text)).map _

theorem build_alike (hfind : p.FindsAlike p') (hoptions : p'.options = p.options) (kind : ValueKind)
    (text : String) : Alike (p.build kind text) (p'.build kind text) := by
  rw [build_eq_enter, build_eq_enter, hoptions]
  exact enter_alike hfind hoptions _ kind text

/-- Parsers under which all sites stand for the same build the same, errors included. -/
theorem build_congr (hfind : ∀ kind site, Resolution.find p'.catalog p'.scene kind site =
      Resolution.find p.catalog p.scene kind site) (hoptions : p'.options = p.options) :
    p'.build = p.build := by
  have halike : p'.FindsAlike p := fun kind site => congrArg Except.toOption (hfind kind site).symm
  have hscan (kind : ValueKind) (text : String) : p'.scan kind text = p.scan kind text := by
    cases kind with
    | number =>
      exact Grammar.Number.scanFrom_congr (Grammar.Number.step_eq halike hoptions.symm) 0
        [] text.toList
    | text =>
      have hresolve : Grammar.Text.resolve p' = Grammar.Text.resolve p := by
        funext site
        rw [Grammar.Text.resolve, Grammar.Text.resolve, hfind]
      refine Grammar.Text.scan_congr (fun cursor cut => ?_) text.toList
      rw [Grammar.Text.readToken, Grammar.Text.readToken, Grammar.Text.readCall,
        Grammar.Text.readCall, hresolve]
  have henter (levels : Nat) : p'.enter levels = p.enter levels := by
    induction levels with
    | zero =>
      funext kind text
      rw [enter, enter, hoptions]
    | succ levels ih =>
      funext kind text
      rw [enter, enter, buildWith_eq, buildWith_eq, hscan, ih]
  rw [build_eq_enter, build_eq_enter, henter, hoptions]

/-- The order of the functions in a valid catalog makes no difference, and the order of the objects
in a valid scene none but for the wording of an error. -/
theorem parse_of_perm (options : Options) (kind : ValueKind) (text : String) :
    (∀ (c c' : Catalog) (s : Scene), c.validate = .ok () → c.functions.Perm c'.functions →
      c'.validate = .ok () ∧
      parse ⟨c', s, options⟩ kind text = parse ⟨c, s, options⟩ kind text) ∧
    ∀ (c : Catalog) (s s' : Scene), s.validate = .ok () → s.objects.Perm s'.objects →
      s.globals.Perm s'.globals →
      (∃ t, parse ⟨c, s, options⟩ kind text = ⟨some t, []⟩ ∧
        parse ⟨c, s', options⟩ kind text = ⟨some t, []⟩) ∨
      ∃ e e' : ParseError, e.kind = e'.kind ∧ e.span = e'.span ∧
        parse ⟨c, s, options⟩ kind text = ⟨none, [e.toDiagnostic]⟩ ∧
        parse ⟨c, s', options⟩ kind text = ⟨none, [e'.toDiagnostic]⟩ := by
  constructor
  · intro c c' s hvalid hperm
    refine ⟨Catalog.validate_of_perm hvalid hperm, ?_⟩
    have hfind := Resolution.find_congr (Catalog.find?_of_perm hvalid hperm) s
    have hbuild : build ⟨c', s, options⟩ = build ⟨c, s, options⟩ := build_congr hfind rfl
    rw [parse, parse, hbuild]
  · intro c s s' hvalid hobjects hglobals
    have hfind : FindsAlike ⟨c, s, options⟩ ⟨c, s', options⟩ :=
      Resolution.toOption_find_congr (Scene.object?_of_perm hvalid hobjects hglobals) c
    have halike : Alike (build ⟨c, s, options⟩ kind text)
        (build ⟨c, s', options⟩ kind text) :=
      build_alike hfind rfl kind text
    unfold parse
    generalize build ⟨c, s, options⟩ kind text = r at halike ⊢
    generalize build ⟨c, s', options⟩ kind text = r' at halike ⊢
    cases halike with
    | ok t => exact .inl ⟨t, rfl, rfl⟩
    | @error e e' hkind hspan => exact .inr ⟨e, e', hkind, hspan, rfl, rfl⟩

/-- The object `A` has no behavior, so the type of the first one of the name decides: a function of
that type is not attached to `A`, and otherwise none is found. -/
theorem parse_of_perm_behavior :
    let f : Signature :=
      { name := "Name", scope := .behavior, ownerType := some "X", returns := .text }
    let g : Signature := { name := "Title", scope := .static, returns := .text }
    let c := Catalog.indexed "1.0" [f, g]
    let c' := Catalog.indexed "1.0" [g, f]
    let a : SceneObject := ⟨"A", "Sprite", []⟩
    let b : SceneObject := ⟨"B", "Sprite", [⟨"Move", "X"⟩]⟩
    let b' : SceneObject := ⟨"C", "Sprite", [⟨"Move", "Y"⟩]⟩
    let s := Scene.indexed [a, b, b'] []
    let s' := Scene.indexed [a, b', b] []
    let e := (Fault.notAttached "A.Move::Name" "A" "Move").error ⟨0, 12⟩
    let e' := (Fault.unknownMember "Move::Name" "A").error ⟨0, 12⟩
    c.validate = .ok () ∧ c.functions.Perm c'.functions ∧
      parse ⟨c', s, {}⟩ .text "A.Move::Name()" = parse ⟨c, s, {}⟩ .text "A.Move::Name()" ∧
      s.validate = .ok () ∧ s.objects.Perm s'.objects ∧ s.globals.Perm s'.globals ∧
      parse ⟨c, s, {}⟩ .text "A.Move::Name()" = ⟨none, [e.toDiagnostic]⟩ ∧
      parse ⟨c, s', {}⟩ .text "A.Move::Name()" = ⟨none, [e'.toDiagnostic]⟩ ∧
      ∃ t, parse ⟨c, s, {}⟩ .text "B.Move::Name()" = ⟨some t, []⟩ ∧
        parse ⟨c, s', {}⟩ .text "B.Move::Name()" = ⟨some t, []⟩ := by
  intro f g c c' a b b' s s' e e'
  have hc : c.validate = .ok () := by decide
  have hfunctions : c.functions.Perm c'.functions := .swap g f []
  have hs : s.validate = .ok () := by cbv
  have hobjects : s.objects.Perm s'.objects := .cons a (.swap b' b [])
  have hglobals : s.globals.Perm s'.globals := .nil
  have hattached : parse ⟨c, s, {}⟩ .text "B.Move::Name()" = ⟨some (.node .text [
      .call ⟨.behavior "B" "Move", "Name", [], ⟨0, 14⟩⟩]), []⟩ := by cbv
  refine ⟨hc, hfunctions, ((parse_of_perm {} .text _).1 c c' s hc hfunctions).2, hs,
    hobjects, hglobals, by cbv, by cbv, ?_⟩
  rcases (parse_of_perm {} .text "B.Move::Name()").2 c s s' hs hobjects hglobals
    with h | ⟨_, _, _, _, h, _⟩
  · exact h
  · cases hattached.symm.trans h

end Parser

end SceneExpr
