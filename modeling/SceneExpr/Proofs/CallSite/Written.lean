import SceneExpr.Proofs.Grammar.Whole

namespace SceneExpr

namespace Pieces

/-- The number of open parentheses and whether a literal is open behind a text that is part of an
argument; nothing if the argument ends within the text. -/
def leaves? : (depth : Nat) → (quoted : Bool) → List Char → Option (Nat × Bool)
  | depth, quoted, [] => some (depth, quoted)
  | depth, true, '\\' :: _ :: cs => leaves? depth true cs
  | depth, true, c :: cs => leaves? depth (c ≠ '"') cs
  | depth, false, c :: cs =>
    if c = '"' then leaves? depth true cs
    else if c = '(' then leaves? (depth + 1) false cs
    else if c = ')' then
      match depth with
      | 0 => none
      | depth + 1 => leaves? depth false cs
    else if c = ',' ∧ depth = 0 then none
    else leaves? depth false cs

/-- The text closes all literals and parentheses that it opens, and no comma or closing parenthesis
in it ends an argument. -/
def SelfContained (cs : List Char) : Prop := leaves? 0 false cs = some (0, false)

theorem divide?_quote (depth : Nat) (cs : List Char) :
    divide? depth false ('"' :: cs) = (divide? depth true cs).map (push '"') := by
  rw [divide?.eq_def]
  exact if_pos rfl

theorem divide?_open (depth : Nat) (cs : List Char) :
    divide? depth false ('(' :: cs) = (divide? (depth + 1) false cs).map (push '(') := by
  rw [divide?.eq_def]
  rfl

theorem divide?_plain {depth : Nat} {c : Char} (hquote : c ≠ '"') (hopen : c ≠ '(')
    (hclose : c ≠ ')') (hcomma : ¬(c = ',' ∧ depth = 0)) (cs : List Char) :
    divide? depth false (c :: cs) = (divide? depth false cs).map (push c) := by
  rw [divide?.eq_def]
  simp [hquote, hopen, hclose, hcomma]

def pushAll (cs : List Char) (p : Pieces) : Pieces := { p with first := cs ++ p.first }

/-- A text that is part of an argument goes to the first piece. -/
theorem divide?_append_of_leaves? {depth depth' : Nat} {quoted : Bool} {cs : List Char}
    (h : leaves? depth quoted cs = some (depth', false)) (ds : List Char) :
    divide? depth quoted (cs ++ ds) = (divide? depth' false ds).map (pushAll cs) := by
  fun_induction leaves? depth quoted cs with
  | case1 depth quoted =>
    obtain ⟨rfl, rfl⟩ := Prod.mk.inj (Option.some.inj h)
    exact Option.map_id'.symm
  | case2 depth c cs ih =>
    rw [List.cons_append, List.cons_append, divide?, ih h, Option.map_map]
    rfl
  | case3 depth c cs hescape ih =>
    -- A backslash at the very end would leave the literal open.
    have hcs : c = '\\' → cs ≠ [] := by
      rintro rfl rfl
      simp [leaves?] at h
    rw [List.cons_append, divide?, ih h, Option.map_map]
    · rfl
    · intro d rest hc hrest
      cases cs with
      | nil => exact hcs hc rfl
      | cons c' cs => exact hescape c' cs hc rfl
  | case4 depth cs ih =>
    rw [List.cons_append, divide?_quote, ih h, Option.map_map]
    rfl
  | case5 depth cs hquote ih =>
    rw [List.cons_append, divide?_open, ih h, Option.map_map]
    rfl
  | case6 cs => cases h
  | case7 cs depth hquote hopen ih =>
    rw [List.cons_append, divide?, if_neg (by decide), if_neg (by decide), if_pos rfl, ih h,
      Option.map_map]
    rfl
  | case8 depth c cs hquote hopen hclose hcomma => cases h
  | case9 depth c cs hquote hopen hclose hcomma ih =>
    rw [List.cons_append, divide?_plain hquote hopen hclose hcomma, ih h, Option.map_map]
    rfl

/-- Pieces that are self-contained are told apart again. -/
theorem divide?_text {p : Pieces} (h : ∀ piece ∈ p.toList, SelfContained piece) :
    divide? 0 false p.text = some p := by
  obtain ⟨first, more, rest⟩ := p
  -- Each piece is taken up to its separator, and the induction goes on behind it.
  induction more generalizing first with
  | nil =>
    have hfirst := divide?_append_of_leaves? (h first List.mem_cons_self) (')' :: rest)
    rw [text, List.flatMap_nil, List.append_nil, hfirst]
    simp [divide?, pushAll]
  | cons piece more ih =>
    have hmore := ih piece fun a ha => h a (List.mem_cons_of_mem first ha)
    have hfirst :=
      divide?_append_of_leaves? (h first List.mem_cons_self) (',' :: text ⟨piece, more, rest⟩)
    have htext : text ⟨first, piece :: more, rest⟩ =
        first ++ ',' :: text ⟨piece, more, rest⟩ := by
      simp [text]
    rw [htext, hfirst, divide?, if_neg (by decide), if_neg (by decide), if_neg (by decide),
      if_pos ⟨rfl, rfl⟩, hmore]
    simp [pushAll, toList]

end Pieces

namespace RawArgument

theorem map_text_place (start : Nat) (texts : List (List Char)) :
    (place start texts).map (·.text) = texts := by
  induction texts generalizing start with
  | nil => rfl
  | cons text texts ih => rw [place, List.map_cons, ih]

theorem dropBlankLast_eq_self {as : List RawArgument}
    (h : ∀ a, as.getLast? = some a → a.isBlank = false) :
    dropBlankLast as = as := by
  apply if_neg
  intro hblank
  obtain ⟨a, hlast, ha⟩ := (Option.any_eq_true _ _).1 hblank
  rw [h a hlast] at ha
  cases ha

end RawArgument

theorem intercalate_comma (first : List Char) (more : List (List Char)) :
    [','].intercalate (first :: more) = first ++ more.flatMap fun piece => ',' :: piece := by
  induction more generalizing first with
  | nil => simp
  | cons piece more ih => rw [List.intercalate_cons_cons, ih]; simp

/-- Behind an opening parenthesis the text is the list of the written arguments, and nothing follows
it. -/
def ArgumentList.Spells (written : List (List Char)) (inner : List Char) : Prop :=
  ∀ function openAt, ∃ list, read function openAt inner = .ok list ∧ list.rest = [] ∧
    list.arguments.map (·.text) = written

/-- Arguments with commas in between are read as they were written, if there is no blank one at the
end. -/
theorem ArgumentList.spells_intercalate {written : List (List Char)}
    (hself : ∀ a ∈ written, Pieces.SelfContained a)
    (hlast : ∀ a, written.getLast? = some a → a.all isBlank = false) :
    Spells written ([','].intercalate written ++ [')']) := by
  intro function openAt
  cases written with
  | nil => exact ⟨_, rfl, rfl, rfl⟩
  | cons first more =>
    have hdivide : Pieces.divide? 0 false ([','].intercalate (first :: more) ++ [')']) =
        some ⟨first, more, []⟩ := by
      rw [intercalate_comma]
      exact Pieces.divide?_text (p := ⟨first, more, []⟩) hself
    have htext := RawArgument.map_text_place (openAt + 1) (first :: more)
    refine ⟨_, by rw [read, hdivide], rfl, ?_⟩
    rw [RawArgument.dropBlankLast_eq_self]
    · exact htext
    · intro a ha
      apply hlast
      rw [← htext, List.getLast?_map]
      exact congrArg (Option.map _) ha

theorem CallSite.plan_of_count {s : CallSite} {r : Resolution} {list : ArgumentList}
    (hlist : s.arguments = some list) (hmin : r.signature.minArguments ≤ list.arguments.length)
    (hmax : list.arguments.length ≤ r.signature.maxArguments) :
    s.plan r = .ok ({
      target := r.target
      function := r.function
      arguments := Binding.place ⟨list.openAt, list.openAt + 1⟩ r.signature.parameters
        list.arguments
      span := ⟨s.start, list.closeAt + 1⟩ }, list) := by
  have hcount : ¬(list.arguments.length < r.signature.minArguments ∨
      r.signature.maxArguments < list.arguments.length) := by omega
  rw [plan, hlist]
  simp only [Binding.bind, if_neg hcount]

/-- A name as it stands in a text: it holds no separator and no quote. -/
def IsName (cs : List Char) : Prop := ∀ c ∈ cs, isSeparator c = false ∧ c ≠ '"'

theorem IsName.ofChar?_eq_none {cs : List Char} (h : IsName cs) (kind : ValueKind) :
    ∀ c ∈ cs, Mark.ofChar? kind c = none := by
  intro c hc
  obtain ⟨hsep, hquote⟩ := h c hc
  have hdot : c ≠ '.' := by
    rintro rfl
    exact absurd hsep (by decide)
  have hopen : c ≠ '(' := by
    rintro rfl
    exact absurd hsep (by decide)
  rw [Mark.ofChar?, if_neg hdot, if_neg hopen, if_neg fun hc => hquote hc.1]

namespace Parser

variable {p : Parser} {kind : ValueKind} {r : Resolution} {written : List (List Char)}
  {inner : List Char}

/-- The text is a call of what was found, with the arguments that are written. -/
def IsCallOf (p : Parser) (kind : ValueKind) (text : List Char) (r : Resolution)
    (written : List (List Char)) : Prop :=
  ∃ c paren as, p.IsCall kind text c r.signature ∧ c.target = r.target ∧
    c.function = r.function ∧
    c.arguments = Binding.place paren r.signature.parameters as ∧ as.map (·.text) = written

section Sites

variable (hmin : r.signature.minArguments ≤ written.length)
  (hmax : written.length ≤ r.signature.maxArguments)

include hmin hmax

theorem isCallOf_site {cut : MarkedCut} {text : List Char} {s : CallSite} {list : ArgumentList}
    (hcut : nextMark? kind text = some cut) (hmark : cut.mark ≠ .quote)
    (hread : CallSite.read 0 cut = .ok s) (hlead : s.lead = []) (hwell : s.isWellFormed = true)
    (hlist : s.arguments = some list) (hrest : list.rest = [])
    (hwritten : list.arguments.map (·.text) = written)
    (hfind : Resolution.find p.catalog p.scene kind s = .ok r) :
    p.IsCallOf kind text r written := by
  rw [← hwritten, List.length_map] at hmin hmax
  have hplan := CallSite.plan_of_count hlist hmin hmax
  exact ⟨_, _, _, .intro hcut hmark hread hlead hwell hfind hplan hrest, rfl, rfl,
    rfl, hwritten⟩

variable (hinner : ArgumentList.Spells written inner)

include hinner

/-- A name in front of a list is a call of a static function. -/
theorem isCallOf_paren {name : List Char} (hname : IsName name) (hne : name ≠ [])
    (hfind : Resolution.static p.catalog kind name = .ok r) :
    p.IsCallOf kind (name ++ '(' :: inner) r written := by
  obtain ⟨list, hread, hrest, htexts⟩ := hinner name (width name)
  have hsep : ∀ c ∈ name, isSeparator c = false := fun c hc => (hname c hc).1
  have hlast := lastIdentifier_eq_self hsep
  have hcut : nextMark? kind (name ++ '(' :: inner) = some ⟨name, .paren, inner⟩ :=
    nextMark?_eq_some_iff.2 ⟨hname.ofChar?_eq_none kind, rfl, rfl⟩
  have hsite : CallSite.read 0 ⟨name, .paren, inner⟩ =
      .ok (CallSite.withList 0 name inner list) := by
    change CallSite.atParen 0 name inner = _
    rw [CallSite.atParen_eq, hlast, Nat.zero_add, hread]
    rfl
  have hwell : (CallSite.withList 0 name inner list).isWellFormed = true := by
    simp [CallSite.isWellFormed, CallSite.withList, hlast, hne]
  have hfind' : Resolution.find p.catalog p.scene kind (CallSite.withList 0 name inner list) =
      .ok r := by
    simp only [Resolution.find, CallSite.withList, hlast, hfind]
  exact isCallOf_site hmin hmax hcut (by simp) hsite (beforeIdentifier_eq_nil hsep) hwell
    rfl hrest htexts hfind'

/-- Two names with a dot in between are a call of a function of an object or of a behavior. -/
theorem isCallOf_dot {owner member : List Char} (howner : IsName owner) (hmember : IsName member)
    (howner_ne : owner ≠ []) (hmember_ne : member ≠ [])
    (hfind : Resolution.member p.catalog p.scene kind
      (String.ofList (decodeOwner owner)) member = .ok r) :
    p.IsCallOf kind (owner ++ '.' :: (member ++ '(' :: inner)) r written := by
  obtain ⟨list, hread, hrest, htexts⟩ :=
    hinner (owner ++ '.' :: member) (width (owner ++ '.' :: member))
  have hsep : ∀ c ∈ owner, isSeparator c = false := fun c hc => (howner c hc).1
  have hlast := lastIdentifier_eq_self hsep
  have hcut : nextMark? kind (owner ++ '.' :: (member ++ '(' :: inner)) =
      some ⟨owner, .dot, member ++ '(' :: inner⟩ :=
    nextMark?_eq_some_iff.2 ⟨howner.ofChar?_eq_none kind, rfl, rfl⟩
  have hwell : (CallSite.dotted 0 owner member [] inner list).isWellFormed = true := by
    have hnone : member.any isSeparator = false := by
      simpa using fun c hc => (hmember c hc).1
    simp [CallSite.isWellFormed, CallSite.dotted, hlast, howner_ne, hmember_ne, hnone]
  have hwritten : (CallSite.dotted 0 owner member [] inner list).written =
      owner ++ '.' :: member := by
    simp only [CallSite.written, CallSite.dotted, hlast]
  have hsite : CallSite.read 0 ⟨owner, .dot, member ++ '(' :: inner⟩ =
      .ok (CallSite.dotted 0 owner member [] inner list) := by
    have hgap : ∀ c ∈ [], isAsciiBlank c = true := List.forall_mem_nil _
    refine CallSite.atDot_of_list hgap hwell ?_
    rw [hwritten, beforeIdentifier_eq_nil hsep]
    simpa using hread
  have hfind' :
      Resolution.find p.catalog p.scene kind (CallSite.dotted 0 owner member [] inner list) =
        .ok r := by
    simp only [Resolution.find, CallSite.dotted, hlast, hfind]
  exact isCallOf_site hmin hmax hcut (by simp) hsite (beforeIdentifier_eq_nil hsep) hwell
    rfl hrest htexts hfind'

end Sites

end Parser

end SceneExpr
