import Mathlib
import SceneExpr.Catalog.Standard
import SceneExpr.EventLog
import SceneExpr.Proofs.CallSite.Written
import SceneExpr.Proofs.Catalog.Lookup
import SceneExpr.Proofs.Consumer.Accepting

namespace SceneExpr

/-- The argument of the parameter with the given source, whatever was made of it. -/
inductive Parameter.Gets {α : Type} (q : Parameter) (source : String) : Argument α → Prop where
  | parsed {kind : ValueKind} (value : α) : q.kind.valueKind? = some kind →
      Gets q source (.parsed kind source value)
  | raw : q.kind.valueKind? = none → Gets q source (.raw (String.ofList (trim source.toList)))

/-- Each written argument goes to the next parameter that authors see. A blank one for an optional
parameter stands for the neutral value, and so does one that is missing; a required one that is
missing is empty. -/
inductive Binding.Supplies {α : Type} :
    List Parameter → List String → List (Argument α) → Prop where
  | nil : Supplies [] [] []
  | generatorOnly {q : Parameter} {qs : List Parameter} {written : List String}
      {bs : List (Argument α)} :
      q.generatorOnly = true → Supplies qs written bs →
      Supplies (q :: qs) written (.raw "" :: bs)
  | written {q : Parameter} {qs : List Parameter} {a : String} {written : List String}
      {b : Argument α} {bs : List (Argument α)} :
      q.generatorOnly = false → (q.optional = true → a.toList.all isBlank = false) →
      q.Gets a b → Supplies qs written bs → Supplies (q :: qs) (a :: written) (b :: bs)
  | blank {q : Parameter} {qs : List Parameter} {a : String} {written : List String}
      {b : Argument α} {bs : List (Argument α)} :
      q.generatorOnly = false → q.optional = true → a.toList.all isBlank = true →
      q.Gets q.neutralValue b → Supplies qs written bs →
      Supplies (q :: qs) (a :: written) (b :: bs)
  | missing {q : Parameter} {qs : List Parameter} {b : Argument α} {bs : List (Argument α)} :
      q.generatorOnly = false → q.Gets (if q.optional then q.neutralValue else "") b →
      Supplies qs [] bs → Supplies (q :: qs) [] (b :: bs)

section Same

variable {α β : Type} {q : Parameter} {source : String}

theorem Parameter.gets_argument (q : Parameter) (text : List Char) (origin : Origin) :
    q.Gets (String.ofList text) (q.argument text origin) := by
  unfold argument
  cases hkind : q.kind.valueKind? with
  | some kind => exact .parsed origin hkind
  | none =>
    have hraw : q.Gets (String.ofList text)
        (Argument.raw (String.ofList (trim (String.ofList text).toList)) :
        Argument Origin) := .raw hkind
    rwa [String.toList_ofList] at hraw

theorem Parameter.Gets.same {a : Argument α} {b : Argument β} (h : q.Gets source a)
    (hab : a.Same b) :
    q.Gets source b := by
  cases h with
  | parsed value hkind =>
    cases hab with
    | parsed _ _ _ value' => exact .parsed value' hkind
  | raw hkind =>
    cases hab with
    | raw => exact .raw hkind

theorem Binding.Supplies.same {qs : List Parameter} {written : List String}
    {as : List (Argument α)} {bs : List (Argument β)} (h : Supplies qs written as)
    (hab : List.Forall₂ Argument.Same as bs) :
    Supplies qs written bs := by
  induction h generalizing bs with
  | nil =>
    cases hab
    exact .nil
  | generatorOnly hq _ ih =>
    cases hab with
    | cons hraw hab =>
      cases hraw
      exact .generatorOnly hq (ih hab)
  | written hq hblank hgets _ ih =>
    cases hab with
    | cons hsame hab => exact .written hq hblank (hgets.same hsame) (ih hab)
  | blank hq hoptional hblank hgets _ ih =>
    cases hab with
    | cons hsame hab => exact .blank hq hoptional hblank (hgets.same hsame) (ih hab)
  | missing hq hgets _ ih =>
    cases hab with
    | cons hsame hab => exact .missing hq (hgets.same hsame) (ih hab)

end Same

/-- Arguments that are no more than the parameters authors see are all placed. -/
theorem Binding.supplies_place (paren : Span) {qs : List Parameter} {as : List RawArgument}
    (hmax : as.length ≤ (qs.filter Parameter.isAuthorVisible).length) :
    Supplies qs (as.map fun a => String.ofList a.text) (place paren qs as) := by
  fun_induction place paren qs as with
  | case1 as =>
    obtain rfl := List.eq_nil_of_length_eq_zero (Nat.le_zero.1 hmax)
    exact .nil
  | case2 q qs as hq ih =>
    have hvisible : q.isAuthorVisible = false := by simp [Parameter.isAuthorVisible, hq]
    rw [List.filter_cons_of_neg (by simp [hvisible])] at hmax
    exact .generatorOnly hq (ih hmax)
  | case3 q qs hq a as bound ih =>
    have hq : q.generatorOnly = false := eq_false_of_ne_true hq
    have hvisible : q.isAuthorVisible = true := by simp [Parameter.isAuthorVisible, hq]
    rw [List.filter_cons_of_pos hvisible, List.length_cons, List.length_cons] at hmax
    have hrest := ih (Nat.le_of_succ_le_succ hmax)
    unfold bound
    split
    next hblank =>
      obtain ⟨hoptional, hblank⟩ := Bool.and_eq_true_iff.1 hblank
      have hgets := q.gets_argument q.neutralValue.toList (.standIn paren)
      rw [String.ofList_toList] at hgets
      exact .blank hq hoptional (by rwa [String.toList_ofList]) hgets hrest
    next hblank =>
      refine .written hq ?_ (q.gets_argument a.text (.written a.start)) hrest
      intro hoptional
      rw [String.toList_ofList]
      exact eq_false_of_ne_true fun htrue => hblank (Bool.and_eq_true_iff.2 ⟨hoptional, htrue⟩)
  | case4 q qs hq text ih =>
    have hq : q.generatorOnly = false := eq_false_of_ne_true hq
    refine .missing hq ?_ (ih (Nat.zero_le _))
    have htext : String.ofList text = if q.optional then q.neutralValue else "" := by
      unfold text
      split
      · exact String.ofList_toList
      · rfl
    rw [← htext]
    exact q.gets_argument text (.standIn paren)

def encodeOwner (name : String) : String :=
  String.ofList (name.toList.map fun c => if c = ' ' then '~' else c)

/-- The name of an object that can be written: it holds no tilde, no quote and no separator but
spaces. -/
structure IsOwnerName (name : String) : Prop where
  ne_empty : name ≠ ""
  tilde_not_mem : '~' ∉ name.toList
  quote_not_mem : '"' ∉ name.toList
  space_of_isSeparator : ∀ c ∈ name.toList, isSeparator c = true → c = ' '

namespace IsOwnerName

variable {name : String}

theorem decode (h : IsOwnerName name) : decodeOwner (encodeOwner name).toList = name.toList := by
  rw [decodeOwner, encodeOwner, String.toList_ofList, List.map_map]
  conv_rhs => rw [← List.map_id name.toList]
  apply List.map_congr_left
  intro c hc
  have htilde : c ≠ '~' := by
    rintro rfl
    exact h.tilde_not_mem hc
  by_cases hspace : c = ' '
  · simp [hspace]
  · simp [hspace, htilde]

theorem isName_encode (h : IsOwnerName name) : IsName (encodeOwner name).toList := by
  intro d hd
  rw [encodeOwner, String.toList_ofList] at hd
  obtain ⟨c, hc, rfl⟩ := List.mem_map.1 hd
  split
  next => decide
  next hspace =>
    refine ⟨eq_false_of_ne_true fun hsep => hspace (h.space_of_isSeparator c hc hsep), ?_⟩
    rintro rfl
    exact h.quote_not_mem hc

theorem encode_ne_nil (h : IsOwnerName name) : (encodeOwner name).toList ≠ [] := by
  rw [encodeOwner, String.toList_ofList]
  intro hnil
  exact h.ne_empty (String.toList_eq_nil_iff.1 (List.map_eq_nil_iff.1 hnil))

end IsOwnerName

/-- The name of a behavior that can be written: it does not hide where it ends. -/
structure IsBehaviorName (name : String) : Prop where
  ne_empty : name ≠ ""
  isName : IsName name.toList
  colons : Signature.hasDoubleColon name.toList = false
  last_ne_colon : name.toList.getLast? ≠ some ':'

namespace Target

inductive Writable : Target → Prop where
  | static : Writable .static
  | object {o : String} : IsOwnerName o → Writable (.object o)
  | behavior {o b : String} : IsOwnerName o → IsBehaviorName b → Writable (.behavior o b)

def spell (function : String) : Target → String
  | .static => function
  | .object o => encodeOwner o ++ "." ++ function
  | .behavior o b => encodeOwner o ++ "." ++ b ++ "::" ++ function

def spellCall (t : Target) (function : String) (written : List String) : String :=
  t.spell function ++ "(" ++ ",".intercalate written ++ ")"

end Target

namespace Parser

/-- What authors may write for an entry of the catalog: names that can be written, as many arguments
as the entry takes, each self-contained, and no blank one at the end. -/
structure MayWrite (p : Parser) (s : Signature) (target : Target)
    (written : List String) : Prop where
  mem : s ∈ p.catalog.functions
  offers : p.catalog.Offers p.scene s target
  isName : IsName s.name.toList
  writable : target.Writable
  selfContained : ∀ a ∈ written, Pieces.SelfContained a.toList
  last_not_blank : ∀ a, written.getLast? = some a → a.toList.all isBlank = false
  min_le : s.minArguments ≤ written.length
  le_max : written.length ≤ s.maxArguments

variable {p : Parser} {s : Signature} {target : Target} {written : List String}

/-- What authors may write for an entry is a call of the entry. -/
theorem MayWrite.isCallOf (h : p.MayWrite s target written) (hvalid : p.catalog.validate = .ok ()) :
    p.IsCallOf s.returns (target.spellCall s.name written).toList ⟨target, s.name, s⟩
      (written.map String.toList) := by
  obtain ⟨hs, hoffers, hname, htarget, hself, hlast, hmin, hmax⟩ := h
  have hself' : ∀ a ∈ written.map String.toList, Pieces.SelfContained a := by
    intro a ha
    obtain ⟨b, hb, rfl⟩ := List.mem_map.1 ha
    exact hself b hb
  have hlast' : ∀ a, (written.map String.toList).getLast? = some a → a.all isBlank = false := by
    intro a ha
    rw [List.getLast?_map] at ha
    obtain ⟨b, hb, rfl⟩ := Option.map_eq_some_iff.1 ha
    exact hlast b hb
  have hname_ne : s.name.toList ≠ [] := fun hnil =>
    Catalog.name_ne_empty hvalid hs (String.toList_eq_nil_iff.1 hnil)
  have hspells := ArgumentList.spells_intercalate hself' hlast'
  have hmin' : s.minArguments ≤ (written.map String.toList).length := by rwa [List.length_map]
  have hmax' : (written.map String.toList).length ≤ s.maxArguments := by rwa [List.length_map]
  have hinner : (",".intercalate written).toList = [','].intercalate (written.map String.toList) :=
    String.toList_intercalate
  -- In every scope the text is a name in front of the list; the scopes differ in how the name is
  -- resolved.
  cases hoffers with
  | static hscope =>
    have htext : (Target.static.spellCall s.name written).toList =
        s.name.toList ++ '(' :: ([','].intercalate (written.map String.toList) ++ [')']) := by
      simp [Target.spellCall, Target.spell, hinner]
    rw [htext]
    exact isCallOf_paren hmin' hmax' hspells hname hname_ne
      (Resolution.static_of_mem hvalid hs hscope)
  | @object o ho hscope hvisible =>
    cases htarget with
    | object howner =>
      have htext : ((Target.object o.name).spellCall s.name written).toList =
          (encodeOwner o.name).toList ++ '.' ::
            (s.name.toList ++ '(' :: ([','].intercalate (written.map String.toList) ++ [')'])) := by
        simp [Target.spellCall, Target.spell, hinner]
      have hfind := Resolution.member_of_visible hvalid hs hscope ho hvisible
      rw [htext]
      refine isCallOf_dot hmin' hmax' hspells howner.isName_encode hname howner.encode_ne_nil
        hname_ne ?_
      rwa [howner.decode, String.ofList_toList]
  | @behavior o b ho hscope hattached =>
    cases htarget with
    | behavior howner hbehavior =>
      have htext : ((Target.behavior o.name b).spellCall s.name written).toList =
          (encodeOwner o.name).toList ++ '.' :: ((b.toList ++ ':' :: ':' :: s.name.toList) ++
            '(' :: ([','].intercalate (written.map String.toList) ++ [')'])) := by
        simp [Target.spellCall, Target.spell, hinner]
      have hmember : IsName (b.toList ++ ':' :: ':' :: s.name.toList) := by
        simp only [IsName, List.forall_mem_append, List.forall_mem_cons]
        exact ⟨hbehavior.isName, by decide, by decide, hname⟩
      have hfind := Resolution.member_of_attached hvalid hs hscope ho hattached hbehavior.colons
        hbehavior.last_ne_colon
      rw [htext]
      refine isCallOf_dot hmin' hmax' hspells howner.isName_encode hmember howner.encode_ne_nil
        (by simp) ?_
      rwa [howner.decode, String.ofList_toList]

/-- A call that authors may write is parsed back by every consumer that accepts its arguments: the
consumer is handed the arguments and told of one call and of nothing else. The call has the entry,
the target and the written arguments, and it is the whole text. -/
theorem observe_written {σ α : Type} (hvalid : p.catalog.validate = .ok ())
    (h : p.MayWrite s target written) {k : Consumer σ α} (hk : k.Accepts) (state : σ) :
    ∃ arguments state', p.observe s.returns (target.spellCall s.name written) k state =
        .ok () (state', arguments.filterMap Argument.callback? ++ [.call ⟨target, s.name,
          arguments, ⟨0, (target.spellCall s.name written).utf8ByteSize⟩⟩ s]) ∧
      Binding.Supplies s.parameters written arguments := by
  obtain ⟨c, paren, as, hcall, htarget, hfunction, harguments, htexts⟩ := h.isCallOf hvalid
  obtain ⟨arguments, state', hsame, hobserve⟩ := observe_of_scan hcall.scan_eq hk state
  have hwritten : (as.map fun a => String.ofList a.text) = written := by
    calc (as.map fun a => String.ofList a.text)
        = (as.map (·.text)).map String.ofList := by rw [List.map_map]; rfl
      _ = (written.map String.toList).map String.ofList := by rw [htexts]
      _ = written := by simp
  have hmax : as.length ≤ (s.parameters.filter Parameter.isAuthorVisible).length := by
    rw [← List.length_map (·.text), htexts, List.length_map]
    exact h.le_max
  have hsupplies := Binding.supplies_place paren hmax
  rw [hwritten] at hsupplies
  refine ⟨arguments, state', ?_, (harguments ▸ hsupplies).same hsame⟩
  rw [hobserve, htarget, hfunction, hcall.span_eq, width_toList]

/-- A behavior of an object with a space in its name; a comma within parentheses, a blank optional
argument and a parameter that authors do not see. -/
theorem observe_written_behavior :
    let entry : Signature := {
      name := "Jump", scope := .behavior, ownerType := some "PlatformBehavior", returns := .number
      parameters := [Catalog.Standard.currentScene, Catalog.Standard.given .expression "height",
        Catalog.Standard.allowed .string "sound" "", Catalog.Standard.given .expression "delay"] }
    let hero : SceneObject := ⟨"My Hero", "Sprite", [⟨"Platformer", "PlatformBehavior"⟩]⟩
    let p : Parser := ⟨.indexed "1.0" [entry], .indexed [hero] [], {}⟩
    let target : Target := .behavior "My Hero" "Platformer"
    let k : Consumer EventLog Nat := EventLog.recorder 0 fun _ _ => pure 0
    p.catalog.validate = .ok () ∧ p.MayWrite entry target ["max(1, 2)", "", "3"] ∧ k.Accepts ∧
      target.spellCall "Jump" ["max(1, 2)", "", "3"] = "My~Hero.Platformer::Jump(max(1, 2),,3)" ∧
      ∃ arguments log, p.observe .number "My~Hero.Platformer::Jump(max(1, 2),,3)" k [] =
          .ok () (log, arguments.filterMap Argument.callback? ++
            [.call ⟨target, "Jump", arguments, ⟨0, 38⟩⟩ entry]) ∧
        Binding.Supplies entry.parameters ["max(1, 2)", "", "3"] arguments := by
  intro entry hero p target k
  have hvalid : p.catalog.validate = .ok () := by
    dsimp only [p, entry]
    rfl
  have hhero : p.scene.object? hero.name = some hero := by cbv
  have hmay : p.MayWrite entry target ["max(1, 2)", "", "3"] := {
    mem := List.mem_cons_self
    offers := .behavior hhero rfl (by cbv)
    isName := by simp [IsName, entry, isSeparator, isAsciiBlank, separators]
    writable := .behavior
      ⟨by simp, by simp, by simp, by simp [isSeparator, isAsciiBlank, separators]⟩
      ⟨by simp, by simp [IsName, isSeparator, isAsciiBlank, separators], by cbv, by simp⟩
    selfContained := by simp [Pieces.SelfContained, Pieces.leaves?]
    last_not_blank := by simp; cbv
    min_le := by cbv
    le_max := by cbv }
  have hk : k.Accepts := fun kind source log => ⟨0, _, rfl⟩
  have htext : target.spellCall "Jump" ["max(1, 2)", "", "3"] =
      "My~Hero.Platformer::Jump(max(1, 2),,3)" := by
    cbv
  obtain ⟨arguments, log, hobserve, hsupplies⟩ := observe_written hvalid hmay hk []
  rw [htext] at hobserve
  exact ⟨hvalid, hmay, hk, htext, arguments, log, hobserve, hsupplies⟩

end Parser

end SceneExpr
