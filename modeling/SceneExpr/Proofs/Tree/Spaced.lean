import Mathlib
import SceneExpr.Catalog.Standard
import SceneExpr.Proofs.Grammar.Whole
import SceneExpr.Proofs.Tree.Levels

namespace SceneExpr

/-- Texts that are cut at the first place of a character have the same parts if they are the
same. -/
theorem append_cons_inj_of_not_mem {α : Type} {a : α} {front front' back back' : List α}
    (h : a ∉ front) (h' : a ∉ front') (heq : front ++ a :: back = front' ++ a :: back') :
    front = front' ∧ back = back' := by
  induction front generalizing front' with
  | nil =>
    cases front' with
    | nil => exact ⟨rfl, (List.cons.inj heq).2⟩
    | cons b front' =>
      rw [(List.cons.inj heq).1] at h'
      exact absurd List.mem_cons_self h'
  | cons b front ih =>
    cases front' with
    | nil =>
      rw [← (List.cons.inj heq).1] at h
      exact absurd List.mem_cons_self h
    | cons b' front' =>
      obtain ⟨rfl, htail⟩ := List.cons.inj heq
      obtain ⟨rfl, rfl⟩ :=
        ih (fun hmem => h (.tail _ hmem)) (fun hmem => h' (.tail _ hmem)) htail
      exact ⟨rfl, rfl⟩

namespace CallSite

variable {s : CallSite} {r : Resolution} {c : Call Origin} {list : ArgumentList}

/-- If its list stands further right, the call of a site gets longer, and its arguments stand
further right. -/
theorem plan_list_shift (h : s.plan r = .ok (c, list)) (n : Nat) (rest : List Char) :
    CallSite.plan { s with arguments := some (list.shift n), rest := rest } r =
      .ok ({ c with
        arguments := c.arguments.map (·.shift n)
        span := ⟨s.start, list.closeAt + n + 1⟩ }, list.shift n) := by
  have hlist := arguments_of_plan h
  unfold plan at h ⊢
  simp only [hlist] at h
  have hwritten :
      CallSite.written { s with arguments := some (list.shift n), rest := rest } = s.written := rfl
  simp only [hwritten, Binding.bind_shift]
  cases hbind : Binding.bind r.signature s.written list with
  | error e => simp [hbind] at h
  | ok arguments =>
    simp only [hbind, Except.ok.injEq, Prod.mk.injEq, and_true] at h
    subst h
    rfl

end CallSite

namespace Parser

variable {p : Parser} {kind : ValueKind} {callee blanks rest : List Char} {c : Call Origin}
  {signature : Signature}

section Calls

variable (hopen : '(' ∉ callee)

include hopen

/-- With an owner in front of the name, blanks in front of the list only move the list. -/
theorem IsCall.spaced (h : p.IsCall kind (callee ++ '(' :: rest) c signature)
    (hdot : '.' ∈ callee) (hcallee : ∀ d ∈ callee, isAsciiBlank d = false)
    (hblanks : ∀ d ∈ blanks, isAsciiBlank d = true) :
    p.IsCall kind (callee ++ (blanks ++ '(' :: rest)) { c with
      arguments := c.arguments.map (·.shift (width blanks))
      span := ⟨0, width (callee ++ (blanks ++ '(' :: rest))⟩ } signature := by
  obtain @⟨⟨before, mark, after⟩, site, r, _, list, hcut, hmark, hread, hlead, hwell, hfind,
      hplan, hrest⟩ := h
  obtain ⟨hbefore, hchar, hwhole⟩ := nextMark?_eq_some_iff.1 hcut
  dsimp only at hbefore hchar hwhole
  have hopenBefore : '(' ∉ before := fun hmem => by simpa [Mark.ofChar?] using hbefore _ hmem
  cases mark with
  | quote => exact absurd rfl hmark
  | paren =>
    -- The name would end at the parenthesis, and the dot would stand in front of the first mark.
    obtain ⟨rfl, -⟩ := append_cons_inj_of_not_mem hopen hopenBefore hwhole
    simpa [Mark.ofChar?] using hbefore _ hdot
  | dot =>
    obtain ⟨member, gap, inner, rfl, hgap, rfl, -, hinner⟩ :=
      CallSite.exists_dotted hread (CallSite.arguments_of_plan hplan)
    have hopenMember : '(' ∉ member := by
      intro hmem
      simp only [CallSite.isWellFormed, CallSite.dotted, Bool.and_eq_true, Bool.not_eq_true',
        List.any_eq_false] at hwell
      exact hwell.2 '(' hmem (by decide)
    have hopenGap : '(' ∉ gap := fun hmem => absurd (hgap _ hmem) (by decide)
    have hparts : callee ++ '(' :: rest = (before ++ '.' :: (member ++ gap)) ++ '(' :: inner := by
      simpa [Mark.char] using hwhole
    obtain ⟨rfl, rfl⟩ := append_cons_inj_of_not_mem hopen (by simp [*]) hparts
    obtain rfl : gap = [] := by
      refine List.eq_nil_iff_forall_not_mem.2 fun d hd => ?_
      have hd' : d ∈ before ++ '.' :: (member ++ gap) := by simp [hd]
      exact absurd (hgap d hd) (by simp [hcallee d hd'])
    have hcut' : nextMark? kind ((before ++ '.' :: (member ++ [])) ++ (blanks ++ '(' :: rest)) =
        some ⟨before, .dot, member ++ (blanks ++ '(' :: rest)⟩ :=
      nextMark?_eq_some_iff.2 ⟨hbefore, hchar, by simp [Mark.char]⟩
    have hread' : CallSite.read 0 ⟨before, .dot, member ++ (blanks ++ '(' :: rest)⟩ = .ok
        (CallSite.dotted 0 before member blanks rest (list.shift (width blanks))) := by
      refine CallSite.atDot_of_list hblanks hwell ?_
      have hshift := ArgumentList.read_shift (CallSite.dotted 0 before member [] rest list).written
        (0 + width (beforeIdentifier before) +
          width (CallSite.dotted 0 before member [] rest list).written)
        (width blanks) rest
      have hsame : ArgumentList.read (CallSite.dotted 0 before member [] rest list).written
        (0 + width (beforeIdentifier before) +
          width (CallSite.dotted 0 before member [] rest list).written)
        rest = .ok list := hinner
      rw [hsame] at hshift
      exact hshift
    have hplan' := CallSite.plan_list_shift hplan (width blanks) (blanks ++ '(' :: rest)
    have hcall : p.IsCall kind _ _ r.signature :=
      .intro hcut' hmark hread' hlead hwell hfind hplan' hrest
    have hspan := hcall.span_eq
    dsimp only at hspan
    rw [hspan] at hcall
    exact hcall

/-- Without an owner, blanks in front of the list leave no name. -/
theorem not_isCall_spaced (hdot : '.' ∉ callee) (hne : blanks ≠ [])
    (hblanks : ∀ d ∈ blanks, isAsciiBlank d = true) :
    ¬ p.IsCall kind (callee ++ (blanks ++ '(' :: rest)) c signature := by
  rintro @⟨⟨before, mark, after⟩, site, r, _, list, hcut, hmark, hread, hlead, -, -, -, -⟩
  obtain ⟨-, -, hwhole⟩ := nextMark?_eq_some_iff.1 hcut
  dsimp only at hwhole
  have hname : ∀ d ∈ before, isSeparator d = false := by
    have hbefore := beforeIdentifier_append_lastIdentifier before
    rw [← CallSite.lead_of_read hread, hlead, List.nil_append] at hbefore
    rw [← hbefore]
    exact fun d => not_isSeparator_of_mem_lastIdentifier
  obtain ⟨d, hd⟩ := List.exists_mem_of_ne_nil blanks hne
  have hseparator : isSeparator d = true := by simp [isSeparator, hblanks d hd]
  have hapart : mark.char ∉ callee ++ blanks := by
    have hblank : mark.char ∉ blanks := fun hmem => by
      have hchar := hblanks _ hmem
      cases mark <;> exact absurd hchar (by decide)
    cases mark with
    | quote => exact absurd rfl hmark
    | dot => exact fun hmem => (List.mem_append.1 hmem).elim hdot hblank
    | paren => exact fun hmem => (List.mem_append.1 hmem).elim hopen hblank
  -- The mark stands behind the blanks, so they belong to the name in front of it.
  rw [← List.append_assoc] at hwhole
  have hmem : d ∈ before := by
    rcases List.append_eq_append_iff.1 hwhole with ⟨more, rfl, -⟩ | ⟨more, hfront, hback⟩
    · exact List.mem_append_left more (List.mem_append_right callee hd)
    · cases more with
      | nil =>
        rw [List.append_nil] at hfront
        rw [← hfront]
        exact List.mem_append_right callee hd
      | cons x more =>
        obtain ⟨rfl, -⟩ := List.cons.inj hback
        exact absurd (by simp [hfront]) hapart
  exact absurd hseparator (by simp [hname d hmem])

end Calls

section Trees

variable {nested : ValueKind → String → Except ParseError Tree} {text : String} {f : Call Tree}

/-- A tree holds one call that spans the whole text if the text is that call. -/
theorem buildWith_eq_call_iff :
    p.buildWith nested kind text = .ok (.node kind [.call f]) ∧
    f.span = ⟨0, width text.toList⟩ ↔
      ∃ c signature, p.IsCall kind text.toList c signature ∧
        Item.built nested (.call c signature) = .ok (.call f) := by
  constructor
  · rintro ⟨h, hspan⟩
    obtain ⟨_, hnode, -, hfragments⟩ := buildWith_eq_ok_iff.1 h
    obtain rfl := (Tree.node.inj hnode).2
    obtain ⟨i, hi, hbuilt⟩ := exists_of_forall₂_of_mem hfragments List.mem_cons_self
    cases i with
    | constant t => cases hbuilt
    | literal value span => cases hbuilt
    | call c signature =>
      have hcspan : c.span = f.span := Segment.token.inj (Item.segment_of_built hbuilt).symm
      obtain ⟨piece, c', hslice, hcall, hc⟩ :=
        ((p.readFrom_scan kind text).reads _ hi).call_alone
      have hwhole : Span.slice? ⟨0, width text.toList⟩ text.toList = some text.toList := by
        have hrest : RestAt text.toList 0 (text.toList ++ []) := by
          rw [List.append_nil]
          exact .whole _
        rw [← hrest.slice?, Nat.zero_add]
      rw [hcspan, hspan, hwhole] at hslice
      obtain rfl := Option.some.inj hslice
      have hscan := hcall.scan_eq
      rw [hscan] at hi
      obtain ⟨rfl, -⟩ := Item.call.inj (List.mem_singleton.1 hi)
      exact ⟨_, _, hcall, hbuilt⟩
  · rintro ⟨c, signature, hcall, hbuilt⟩
    have hscan := hcall.scan_eq
    refine ⟨buildWith_eq_ok_iff.2 ⟨_, rfl, by rw [hscan], by
      rw [hscan]; exact .cons hbuilt .nil⟩, ?_⟩
    rw [← hcall.span_eq]
    exact Segment.token.inj (Item.segment_of_built hbuilt)

theorem built_call_shift {span : Span} (h : Item.built nested (.call c signature) = .ok (.call f))
    (n : Nat) :
    Item.built nested
      (.call { c with arguments := c.arguments.map (·.shift n), span := span } signature) =
      .ok (.call { f with span := span }) := by
  obtain ⟨arguments, harguments, hf⟩ := exists_of_map_ok h
  have hshift := mapM_shift n (Argument.built_shift nested n) c.arguments
  rw [List.map_id_fun, harguments] at hshift
  obtain rfl := Fragment.call.inj hf
  change (((c.arguments.map (·.shift n)).mapM (Argument.built nested)).map _) = _
  rw [hshift]
  rfl

/-- Where a name without blanks and its argument list are one call, blanks between them make a
longer call with the same trees if the name has an owner. If it has none, there is no such call. -/
theorem build_spaced (callee blanks list : String) (hopen : '(' ∉ callee.toList)
    (hcallee : ∀ d ∈ callee.toList, isAsciiBlank d = false) (hne : blanks ≠ "")
    (hblanks : ∀ d ∈ blanks.toList, isAsciiBlank d = true)
    (h : p.build kind (callee ++ "(" ++ list ++ ")") = .ok (.node kind [.call f]))
    (hspan : f.span = ⟨0, (callee ++ "(" ++ list ++ ")").utf8ByteSize⟩) :
    ('.' ∈ callee.toList →
      p.build kind (callee ++ blanks ++ "(" ++ list ++ ")") = .ok (.node kind [.call
        { f with span := ⟨0, (callee ++ blanks ++ "(" ++ list ++ ")").utf8ByteSize⟩ }])) ∧
    ('.' ∉ callee.toList → ∀ f' : Call Tree,
      f'.span = ⟨0, (callee ++ blanks ++ "(" ++ list ++ ")").utf8ByteSize⟩ →
      p.build kind (callee ++ blanks ++ "(" ++ list ++ ")") ≠ .ok (.node kind [.call f'])) := by
  have htext : (callee ++ "(" ++ list ++ ")").toList =
      callee.toList ++ '(' :: (list.toList ++ [')']) := by simp
  have hspaced : (callee ++ blanks ++ "(" ++ list ++ ")").toList =
      callee.toList ++ (blanks.toList ++ '(' :: (list.toList ++ [')'])) := by simp
  obtain ⟨nested, hbuild⟩ := p.exists_nested
  rw [hbuild] at h ⊢
  rw [← width_toList] at hspan ⊢
  refine ⟨fun hdot => ?_, fun hdot f' hspan' h' => ?_⟩
  · obtain ⟨c, signature, hcall, hbuilt⟩ := buildWith_eq_call_iff.1 ⟨h, hspan⟩
    rw [htext] at hcall
    have hcall' := hcall.spaced hopen hdot hcallee hblanks
    rw [← hspaced] at hcall'
    exact (buildWith_eq_call_iff.2 ⟨_, signature, hcall', built_call_shift hbuilt _⟩).1
  · obtain ⟨c, signature, hcall, -⟩ := buildWith_eq_call_iff.1 ⟨h', hspan'⟩
    rw [hspaced] at hcall
    have hne' : blanks.toList ≠ [] := fun hnil => hne (String.toList_eq_nil_iff.1 hnil)
    exact not_isCall_spaced hopen hdot hne' hblanks hcall

/-- A function of a behavior may have blanks in front of its list, a static function may not. -/
theorem build_spaced_behavior :
    let factor := Catalog.Standard.given .expression "factor"
    let p : Parser := ⟨.indexed "1.0" [Catalog.Standard.function "Random" .number [factor],
        { Catalog.Standard.behaviorFunction "Platform" "Speed" .number
          with parameters := [factor] }],
      .indexed [⟨"Hero", "Sprite", [⟨"Run", "Platform"⟩]⟩] [], {}⟩
    let call (target : Target) (name : String) (stop : Nat) : Call Tree :=
      ⟨target, name, [.parsed .number "2" (.node .number [.constant "2"])], ⟨0, stop⟩⟩
    let speed := call (.behavior "Hero" "Run") "Speed"
    let random := call .static "Random"
    (p.build .number "Hero.Run::Speed(2)" = .ok (.node .number [.call (speed 18)]) ∧
      p.build .number "Hero.Run::Speed \t(2)" = .ok (.node .number [.call (speed 20)])) ∧
    p.build .number "Random(2)" = .ok (.node .number [.call (random 9)]) ∧
      ∀ f : Call Tree, f.span = ⟨0, 11⟩ →
        p.build .number "Random \t(2)" ≠ .ok (.node .number [.call f]) := by
  intro factor p call speed random
  have hspeed : p.build .number "Hero.Run::Speed(2)" =
      .ok (.node .number [.call (speed 18)]) := by cbv
  have hrandom : p.build .number "Random(2)" = .ok (.node .number [.call (random 9)]) := by cbv
  refine ⟨⟨hspeed, ?_⟩, hrandom, ?_⟩
  · exact (build_spaced "Hero.Run::Speed" " \t" "2" (by decide) (by simp [isAsciiBlank])
      (by decide) (by simp [isAsciiBlank]) hspeed rfl).1 (by decide)
  · exact (build_spaced "Random" " \t" "2" (by decide) (by simp [isAsciiBlank]) (by decide)
      (by simp [isAsciiBlank]) hrandom rfl).2 (by decide)

/-- With a blank between its name and its list the call of a static function is constant text. -/
theorem not_build_spaced :
    let p : Parser := ⟨.indexed "1.0" [
        Catalog.Standard.function "Random" .number [Catalog.Standard.given .expression "max"]],
      .empty, {}⟩
    let c : Call Tree :=
      ⟨.static, "Random", [.parsed .number "1" (.node .number [.constant "1"])], ⟨0, 9⟩⟩
    p.build .number "Random(1)" = .ok (.node .number [.call c]) ∧
      p.build .number "Random (1)" = .ok (.node .number [.constant "Random (1)"]) ∧
      p.build .number "Random (1)" ≠
        .ok (.node .number [.call { c with span := ⟨0, 10⟩ }]) := by
  intro p c
  have hspaced : p.build .number "Random (1)" = .ok (.node .number [.constant "Random (1)"]) := by
    cbv
  refine ⟨by cbv, hspaced, ?_⟩
  rw [hspaced]
  simp

end Trees

end Parser

end SceneExpr
