import SceneExpr.Proofs.CallSite.Place
import SceneExpr.Proofs.Octets.Rendering
import SceneExpr.Resolution

namespace SceneExpr

theorem Mark.char_lt (m : Mark) : m.char.toNat < 128 := by
  cases m <;> decide

namespace Octets

/-- The first mark among some octets, with its offset; `offset` is that of the first octet. -/
def markFrom? (kind : ValueKind) (offset : Nat) : List UInt8 → Option (Nat × Mark)
  | [] => none
  | b :: bs =>
    match Mark.ofChar? kind (Char.ofUInt8 b) with
    | some m => some (offset, m)
    | none => markFrom? kind (offset + 1) bs

def findMark? (text : List Char) (offset : Nat) (kind : ValueKind) : Option (Nat × Mark) :=
  markFrom? kind offset ((octets text).drop offset)

def identifierStart (text : List Char) (floor stop : Nat) : Outcome Nat := do
  let before ← range text floor stop
  return match lastOctet? isSeparator before with
    | none => floor
    | some i => floor + i + 1

def lower : Nat → Outcome Nat
  | 0 => .panic .depth
  | depth + 1 => .ok depth

/-- Divides an argument list at its commas; `start` is the offset of the argument that is read, and
`i` that of the octet. Gives the offset of the closing parenthesis and the arguments. -/
def divideFrom (text : List Char) : (depth : Nat) → (quoted : Bool) → (start i : Nat) →
    List RawArgument → List UInt8 → Outcome (Option (Nat × List RawArgument))
  | _, _, _, _, _, [] => .ok none
  | depth, true, start, i, arguments, b :: bs =>
    if Char.ofUInt8 b = '\\' then
      match bs with
      | [] => .ok none
      | _ :: bs => divideFrom text depth true start (i + 2) arguments bs
    else divideFrom text depth (Char.ofUInt8 b ≠ '"') start (i + 1) arguments bs
  | depth, false, start, i, arguments, b :: bs =>
    if Char.ofUInt8 b = '"' then divideFrom text depth true start (i + 1) arguments bs
    else if Char.ofUInt8 b = '(' then divideFrom text (depth + 1) false start (i + 1) arguments bs
    else if Char.ofUInt8 b = ')' ∧ depth = 0 then do
      let piece ← part text start i
      return some (i, RawArgument.dropBlankLast (arguments ++ [⟨piece, start⟩]))
    else if Char.ofUInt8 b = ')' then do
      let depth ← lower depth
      divideFrom text depth false start (i + 1) arguments bs
    else if Char.ofUInt8 b = ',' ∧ depth = 0 then do
      let piece ← part text start i
      divideFrom text depth false (i + 1) (i + 1) (arguments ++ [⟨piece, start⟩]) bs
    else divideFrom text depth false start (i + 1) arguments bs

structure ListSite where
  openAt : Nat
  closeAt : Nat
  arguments : List RawArgument

def ListSite.of (list : ArgumentList) : ListSite := ⟨list.openAt, list.closeAt, list.arguments⟩

def splitArguments (text : List Char) (openAt : Nat) (function : List Char) : Outcome ListSite := do
  match ← divideFrom text 0 false (openAt + 1) (openAt + 1) []
    ((octets text).drop (openAt + 1)) with
  | some (closeAt, arguments) => return ⟨openAt, closeAt, arguments⟩
  | none =>
    let s ← span openAt (openAt + 1)
    raise (.unclosedList (String.ofList function)) s

structure Site where
  start : Nat
  owner : Option (List Char)
  member : List Char
  memberSpan : Span
  list : Option ListSite

namespace Site

def of (s : CallSite) : Site :=
  ⟨s.start, s.owner, s.member, s.memberSpan, s.arguments.map ListSite.of⟩

def candidate (s : Site) : CallSite where
  lead := []
  start := s.start
  owner := s.owner
  member := s.member
  arguments := none
  rest := []

@[simp] theorem start_of (s : CallSite) : (of s).start = s.start := rfl

@[simp] theorem isWellFormed_candidate (s : CallSite) :
    (of s).candidate.isWellFormed = s.isWellFormed := rfl

theorem find_candidate (catalog : Catalog) (scene : Scene) (returns : ValueKind) (s : CallSite) :
    Resolution.find catalog scene returns (of s).candidate =
      Resolution.find catalog scene returns s := rfl

end Site

def listAfter (text : List Char) (start stop : Nat) : Outcome (Option ListSite) := do
  let past ← range text stop (octets text).length
  match firstOctet? (fun c => !isAsciiBlank c) past with
  | none => return none
  | some i =>
    let b ← octet text (stop + i)
    if Char.ofUInt8 b = '(' then
      let written ← part text start stop
      let list ← splitArguments text (stop + i) written
      return some list
    else return none

/-- The site of the mark at an offset; its identifier starts at `floor` or later. -/
def callSite (text : List Char) (floor offset : Nat) : Mark → Outcome Site
  | .quote => .panic .quote
  | .paren => do
    let start ← identifierStart text floor offset
    let member ← part text start offset
    let list ← splitArguments text offset member
    let s ← span start offset
    return ⟨start, none, member, s, some list⟩
  | .dot => do
    let start ← identifierStart text floor offset
    let owner ← part text start offset
    let after ← range text (offset + 1) (octets text).length
    let stop := stopAt text (offset + 1) (firstOctet? CallSite.endsMember after)
    let member ← part text (offset + 1) stop
    let s ← span (offset + 1) stop
    let site : Site := ⟨start, some owner, member, s, none⟩
    if site.candidate.isWellFormed then
      let list ← listAfter text start stop
      return { site with list := list }
    else return site

section Marks

theorem ofChar?_of_le {kind : ValueKind} {c : Char} (hc : 128 ≤ c.toNat) :
    Mark.ofChar? kind c = none := by
  simp only [Mark.ofChar?, ne_of_le hc (d := '.') (by decide), ne_of_le hc (d := '(') (by decide),
    ne_of_le hc (d := '"') (by decide), if_false, false_and]

theorem markFrom?_append {kind : ValueKind} {bs : List UInt8} (h : ∀ b ∈ bs, 128 ≤ b.toNat)
    (offset : Nat) (rest : List UInt8) :
    markFrom? kind offset (bs ++ rest) = markFrom? kind (offset + bs.length) rest := by
  induction bs generalizing offset with
  | nil => rfl
  | cons b bs ih =>
    have hb : 128 ≤ (Char.ofUInt8 b).toNat := by
      rw [toNat_ofUInt8]
      exact h b List.mem_cons_self
    rw [List.cons_append, markFrom?, ofChar?_of_le hb]
    dsimp only
    rw [ih (fun b' hb' => h b' (List.mem_cons_of_mem b hb')), List.length_cons]
    congr 1
    omega

theorem markFrom?_octets (kind : ValueKind) (offset : Nat) (cs : List Char) :
    markFrom? kind offset (octets cs) =
      (nextMark? kind cs).map fun cut => (offset + width cut.before, cut.mark) := by
  induction cs generalizing offset with
  | nil => rfl
  | cons c cs ih =>
    have hnone : Mark.ofChar? kind c = none → markFrom? kind offset (octets (c :: cs)) =
        markFrom? kind (offset + c.utf8Size) (octets cs) := by
      intro hm
      by_cases hc : c.toNat < 128
      · rw [octets_cons, utf8EncodeChar_of_lt hc, List.singleton_append, markFrom?,
          ofUInt8_ofNat hc, hm, utf8Size_of_lt hc]
      · have hle := fun b => le_of_mem_utf8EncodeChar (b := b) (Nat.not_lt.1 hc)
        rw [octets_cons, markFrom?_append hle, String.length_utf8EncodeChar]
    rw [nextMark?]
    cases hm : Mark.ofChar? kind c with
    | some m =>
      have hc : c.toNat < 128 := by
        by_contra hc
        rw [ofChar?_of_le (Nat.not_lt.1 hc)] at hm
        cases hm
      rw [octets_cons, utf8EncodeChar_of_lt hc, List.singleton_append, markFrom?,
        ofUInt8_ofNat hc, hm]
      rfl
    | none =>
      rw [hnone hm, ih, Option.map_map]
      congr 1
      funext cut
      simp only [Function.comp, width_cons, Nat.add_assoc]

theorem findMark?_eq {text rest : List Char} {n : Nat} (h : RestAt text n rest) (kind : ValueKind) :
    findMark? text n kind = (nextMark? kind rest).map fun cut =>
      (n + width cut.before, cut.mark) := by
  rw [findMark?, drop_octets h, markFrom?_octets]

end Marks

section Lists

variable {text : List Char}

theorem identifierStart_eq {floor : Nat} {before rest : List Char}
    (h : RestAt text floor (before ++ rest)) :
    identifierStart text floor (floor + width before) =
      .ok (floor + width (beforeIdentifier before)) := by
  have hseparator : OctetWise isSeparator := .of_ascii fun c hc => lt_of_isSeparator hc
  rw [identifierStart, range_of_restAt h, Outcome.ok_bind, Outcome.pure_eq]
  congr 1
  have hlast : ∀ c ∈ lastIdentifier before, isSeparator c = false :=
    fun c hc => not_isSeparator_of_mem_lastIdentifier hc
  rcases List.eq_nil_or_concat (beforeIdentifier before) with hfront | ⟨front, c, hfront⟩
  · have hbefore := beforeIdentifier_append_lastIdentifier before
    rw [hfront, List.nil_append] at hbefore
    rw [hbefore] at hlast
    rw [hseparator.lastOctet?_of_all hlast, hfront]
    rfl
  · have hc := isSeparator_of_beforeIdentifier hfront
    have hsplit : octets before = octets (front ++ c :: lastIdentifier before) := by
      rw [← List.singleton_append, ← List.append_assoc, ← List.concat_eq_append, ← hfront,
        beforeIdentifier_append_lastIdentifier]
    rw [hsplit, hseparator.lastOctet?_append_cons hc (lt_of_isSeparator hc) hlast, hfront]
    simp [utf8Size_of_lt (lt_of_isSeparator hc), Nat.add_assoc]

theorem divideFrom_quoted {b : UInt8} (hb : Char.ofUInt8 b ≠ '\\') (depth start i : Nat)
    (arguments : List RawArgument) (bs : List UInt8) :
    divideFrom text depth true start i arguments (b :: bs) =
      divideFrom text depth (Char.ofUInt8 b ≠ '"') start (i + 1) arguments bs := by
  cases bs <;> simp [divideFrom, hb]

/-- What no character of ASCII stands for is read over. -/
theorem divideFrom_skip {bs : List UInt8} (h : ∀ b ∈ bs, 128 ≤ b.toNat) (depth : Nat)
    (quoted : Bool) (start i : Nat) (arguments : List RawArgument) (rest : List UInt8) :
    divideFrom text depth quoted start i arguments (bs ++ rest) =
      divideFrom text depth quoted start (i + bs.length) arguments rest := by
  induction bs generalizing i with
  | nil => rfl
  | cons b bs ih =>
    have hb : 128 ≤ (Char.ofUInt8 b).toNat := by
      rw [toNat_ofUInt8]
      exact h b List.mem_cons_self
    have hne (d : Char) (hd : d.toNat < 128) : Char.ofUInt8 b ≠ d := ne_of_le hb hd
    have hrest := ih (fun b' hb' => h b' (List.mem_cons_of_mem b hb')) (i + 1)
    rw [List.length_cons, Nat.add_comm bs.length, ← Nat.add_assoc, ← hrest, List.cons_append]
    cases quoted with
    | true => rw [divideFrom_quoted (hne '\\' (by decide)), decide_eq_true (hne '"' (by decide))]
    | false =>
      rw [divideFrom, if_neg (hne '"' (by decide)), if_neg (hne '(' (by decide)),
        if_neg (mt And.left (hne ')' (by decide))), if_neg (hne ')' (by decide)),
        if_neg (mt And.left (hne ',' (by decide)))]

theorem divideFrom_outside {c : Char} (h : 128 ≤ c.toNat) (depth : Nat) (quoted : Bool)
    (start i : Nat) (arguments : List RawArgument) (cs : List Char) :
    divideFrom text depth quoted start i arguments (octets (c :: cs)) =
      divideFrom text depth quoted start (i + c.utf8Size) arguments (octets cs) := by
  rw [octets_cons, divideFrom_skip fun b hb => le_of_mem_utf8EncodeChar h hb,
    String.length_utf8EncodeChar]

/-- What the reader gives for the pieces of the text past a front: the offset of the closing
parenthesis, and the arguments, of which the first one starts with the front. -/
def divided (start : Nat) (front : List Char) (arguments : List RawArgument) (p : Pieces) :
    Nat × List RawArgument :=
  (start + width front + width p.body,
    RawArgument.dropBlankLast (arguments ++ RawArgument.place start ((front ++ p.first) :: p.more)))

theorem divided_append_singleton (start : Nat) (front : List Char) (arguments : List RawArgument)
    (c : Char) :
    divided start (front ++ [c]) arguments = divided start front arguments ∘ Pieces.push c := by
  funext p
  simp [divided, Pieces.push, Pieces.body, Nat.add_assoc]

theorem divided_comma (start : Nat) (front : List Char) (arguments : List RawArgument)
    (p : Pieces) :
    divided (start + width front + 1) [] (arguments ++ [⟨front, start⟩]) p =
      divided start front arguments ⟨[], p.toList, p.rest⟩ := by
  have hcomma : Char.utf8Size ',' = 1 := rfl
  simp [divided, Pieces.toList, Pieces.body, RawArgument.place, hcomma, Nat.add_assoc]

/-- The list is divided as its characters are. -/
theorem divideFrom_eq {depth : Nat} {quoted : Bool} {start : Nat} {front cs : List Char}
    (arguments : List RawArgument) (h : RestAt text start (front ++ cs)) :
    divideFrom text depth quoted start (start + width front) arguments (octets cs) =
      .ok ((Pieces.divide? depth quoted cs).map (divided start front arguments)) := by
  -- Past a character the reader goes on with a longer front.
  have hpast {front cs : List Char} {c : Char} {depth : Nat} {quoted : Bool} {start : Nat}
      {arguments : List RawArgument} (h : RestAt text start (front ++ c :: cs))
      (ih : RestAt text start ((front ++ [c]) ++ cs) →
        divideFrom text depth quoted start (start + width (front ++ [c])) arguments (octets cs) =
          .ok ((Pieces.divide? depth quoted cs).map (divided start (front ++ [c]) arguments))) :
      divideFrom text depth quoted start (start + width front + c.utf8Size) arguments (octets cs) =
        .ok (((Pieces.divide? depth quoted cs).map (Pieces.push c)).map
          (divided start front arguments)) := by
    have hwidth : width (front ++ [c]) = width front + c.utf8Size := by simp
    rw [List.append_assoc, List.singleton_append, hwidth, ← Nat.add_assoc,
      divided_append_singleton] at ih
    rw [ih h, Option.map_map]
  fun_induction Pieces.divide? depth quoted cs generalizing start front arguments with
  | case1 => rfl
  | case2 depth c cs ih =>
    obtain ⟨b, bs, hb, -⟩ := exists_utf8EncodeChar_eq_cons c
    have hsize := utf8Size_of_cons hb
    have hback : Char.utf8Size '\\' = 1 := rfl
    have hpair : RestAt text start ((front ++ ['\\', c]) ++ cs) := by
      rwa [List.append_assoc, List.cons_append, List.singleton_append]
    have hrest := ih arguments hpair
    rw [octets_cons_of_lt (c := '\\') (by decide), octets_cons, hb, List.cons_append, divideFrom,
      ofUInt8_ofNat (by decide), if_pos rfl, divideFrom_skip fun b' => le_of_mem_tail hb]
    have hstart : start + width front + 2 + bs.length = start + width (front ++ ['\\', c]) := by
      simp only [width_append, width_cons, width_nil, hback, hsize]
      omega
    rw [hstart, hrest, Option.map_map]
    congr 2
    funext p
    simp [divided, Pieces.push, Pieces.body, Nat.add_assoc]
  | case3 depth c cs hescape ih =>
    by_cases hc : c.toNat < 128
    · rw [octets_cons_of_lt hc]
      by_cases hback : c = '\\'
      · cases cs with
        | nil => simp [divideFrom, hback, Pieces.divide?]
        | cons d cs => exact absurd rfl (hescape d cs hback)
      · rw [divideFrom_quoted (by rwa [ofUInt8_ofNat hc]), ofUInt8_ofNat hc, ← utf8Size_of_lt hc]
        exact hpast h (ih arguments)
    · have hquote : decide (c ≠ '"') = true :=
        decide_eq_true (ne_of_le (Nat.not_lt.1 hc) (by decide))
      rw [divideFrom_outside (Nat.not_lt.1 hc)]
      rw [hquote] at ih ⊢
      exact hpast h (ih arguments)
  | case4 depth cs ih =>
    rw [octets_cons_of_lt (by decide), divideFrom, ofUInt8_ofNat (by decide), if_pos rfl]
    exact hpast h (ih arguments)
  | case5 depth cs hquote ih =>
    rw [octets_cons_of_lt (by decide), divideFrom, ofUInt8_ofNat (by decide), if_neg hquote,
      if_pos rfl]
    exact hpast h (ih arguments)
  | case6 cs hquote hopen =>
    rw [octets_cons_of_lt (by decide), divideFrom, ofUInt8_ofNat (by decide), if_neg hquote,
      if_neg hopen, if_pos ⟨rfl, rfl⟩, part_of_restAt h]
    simp [divided, Pieces.body, RawArgument.place]
  | case7 cs depth hquote hopen ih =>
    rw [octets_cons_of_lt (by decide), divideFrom, ofUInt8_ofNat (by decide), if_neg hquote,
      if_neg hopen, if_neg (by simp), if_pos rfl, lower, Outcome.ok_bind]
    exact hpast h (ih arguments)
  | case8 depth c cs hquote hopen hclose hc ih =>
    obtain ⟨rfl, rfl⟩ := hc
    have hafter := h.advance.advance_cons
    have hcomma : Char.utf8Size ',' = 1 := rfl
    rw [hcomma] at hafter
    have hrest : divideFrom text 0 false (start + width front + 1) (start + width front + 1)
        (arguments ++ [⟨front, start⟩]) (octets cs) = .ok ((Pieces.divide? 0 false cs).map
          (divided (start + width front + 1) [] (arguments ++ [⟨front, start⟩]))) :=
      ih _ (by rwa [List.nil_append])
    rw [octets_cons_of_lt (by decide), divideFrom, ofUInt8_ofNat (by decide), if_neg hquote,
      if_neg hopen, if_neg (mt And.left hclose), if_neg hclose, if_pos ⟨rfl, rfl⟩,
      part_of_restAt h, Outcome.ok_bind, hrest, Option.map_map]
    congr 2
    funext p
    exact divided_comma start front arguments p
  | case9 depth c cs hquote hopen hclose hcomma ih =>
    by_cases hc : c.toNat < 128
    · rw [octets_cons_of_lt hc, divideFrom, ofUInt8_ofNat hc, if_neg hquote, if_neg hopen,
        if_neg (mt And.left hclose), if_neg hclose, if_neg hcomma, ← utf8Size_of_lt hc]
      exact hpast h (ih arguments)
    · rw [divideFrom_outside (Nat.not_lt.1 hc)]
      exact hpast h (ih arguments)

theorem splitArguments_eq {openAt : Nat} {inner : List Char} (function : List Char)
    (h : RestAt text openAt ('(' :: inner)) :
    splitArguments text openAt function =
      .ofExcept ((ArgumentList.read function openAt inner).map ListSite.of) := by
  have hinner := h.advance_cons
  have hparen : Char.utf8Size '(' = 1 := rfl
  rw [hparen] at hinner
  have hdivide : divideFrom text 0 false (openAt + 1) (openAt + 1) [] (octets inner) =
      .ok ((Pieces.divide? 0 false inner).map (divided (openAt + 1) [] [])) :=
    divideFrom_eq [] (by rwa [List.nil_append])
  rw [splitArguments, drop_octets hinner, hdivide, ArgumentList.read, Outcome.ok_bind]
  cases Pieces.divide? 0 false inner with
  | none =>
    rw [span_of_le (Nat.le_succ openAt)]
    exact raise_eq _ _
  | some p =>
    have hclose : openAt + 1 + width p.body = openAt + Pieces.separatedWidth p.toList := by
      rw [Pieces.separatedWidth_toList]
      omega
    simp only [Option.map_some, divided, width_nil, Nat.add_zero, hclose, List.nil_append]
    rfl

end Lists

section Sites

variable {text : List Char} {cursor : Nat} {before after : List Char}

/-- Where the identifier in front of a mark stands. -/
theorem restAt_lastIdentifier (h : RestAt text cursor (before ++ after)) :
    RestAt text (cursor + width (beforeIdentifier before)) (lastIdentifier before ++ after) := by
  rw [← beforeIdentifier_append_lastIdentifier before, List.append_assoc] at h
  exact h.advance

theorem add_width_lastIdentifier (cursor : Nat) (before : List Char) :
    cursor + width (beforeIdentifier before) + width (lastIdentifier before) =
      cursor + width before := by
  rw [Nat.add_assoc, ← width_append, beforeIdentifier_append_lastIdentifier]

theorem callSite_paren (h : RestAt text cursor (before ++ '(' :: after)) :
    callSite text cursor (cursor + width before) .paren =
      .ofExcept ((CallSite.atParen cursor before after).map Site.of) := by
  have hmember := part_of_restAt (restAt_lastIdentifier h)
  rw [add_width_lastIdentifier] at hmember
  have hspan : span (cursor + width (beforeIdentifier before)) (cursor + width before) =
      .ok ⟨cursor + width (beforeIdentifier before), cursor + width before⟩ := by
    apply span_of_le
    rw [← add_width_lastIdentifier cursor before]
    exact Nat.le_add_right _ _
  rw [callSite, identifierStart_eq h, Outcome.ok_bind, hmember, Outcome.ok_bind,
    splitArguments_eq _ h.advance, CallSite.atParen_eq]
  cases ArgumentList.read (lastIdentifier before) (cursor + width before) after with
  | error e => rfl
  | ok list =>
    change (span _ _ >>= fun s => pure _) = _
    rw [hspan, Outcome.ok_bind]
    simp only [Except.map, Outcome.ofExcept, Outcome.pure_eq, Site.of, CallSite.withList,
      CallSite.memberSpan, CallSite.memberStart, Option.map_some, add_width_lastIdentifier]

theorem listAfter_eq {s : CallSite} (h : RestAt text s.start (s.written ++ s.rest)) :
    listAfter text s.start s.memberSpan.stop =
      .ofExcept (s.listAfter.map (Option.map ListSite.of)) := by
  have hstop := s.memberSpan_stop
  have hrest := h.advance
  have hwritten := part_of_restAt h
  have hblank : OctetWise fun c => !isAsciiBlank c :=
    OctetWise.not (.of_ascii fun c hc => lt_of_isAsciiBlank hc)
  rw [← hstop] at hrest hwritten
  rw [listAfter, range_to_end hrest, Outcome.ok_bind]
  rcases hblank.cases_firstOctet? s.rest
    with ⟨hnone, hall⟩ | ⟨gap, c, past, hgap, hblanks, hc, hsome⟩
  · have hdrop : s.rest.dropWhile isAsciiBlank = [] := by
      rw [List.dropWhile_eq_nil_iff]
      intro c hc
      simpa using hall c hc
    rw [hnone, CallSite.listAfter_of_not_open (by simp [hdrop])]
    rfl
  · have hblanks : ∀ c ∈ gap, isAsciiBlank c = true := fun c hc => by simpa using hblanks c hc
    have hc : isAsciiBlank c ≠ true := by simpa using hc
    have htake : s.rest.takeWhile isAsciiBlank = gap := by
      rw [hgap, List.takeWhile_append_of_pos hblanks, List.takeWhile_cons_of_neg hc,
        List.append_nil]
    have hdrop : s.rest.dropWhile isAsciiBlank = c :: past := by
      rw [hgap, List.dropWhile_append_of_pos hblanks, List.dropWhile_cons_of_neg hc]
    rw [hgap] at hrest
    have hopen := hrest.advance
    obtain ⟨b, hb, hoctet⟩ := exists_octet_of_restAt hopen
    have hparen : Char.ofUInt8 b = '(' ↔ c = '(' := by
      simpa using octetWise_eq (d := '(') (by decide) c b hb
    rw [hsome]
    dsimp only
    rw [hoctet, Outcome.ok_bind]
    by_cases hcParen : c = '('
    · rw [if_pos (hparen.2 hcParen)]
      subst hcParen
      rw [hwritten, Outcome.ok_bind, splitArguments_eq _ hopen,
        CallSite.listAfter_of_open hdrop, htake]
      cases ArgumentList.read s.written (s.memberSpan.stop + width gap) past <;> rfl
    · rw [if_neg (mt hparen.1 hcParen), CallSite.listAfter_of_not_open (by simp [hdrop, hcParen])]
      rfl

theorem octetWise_endsMember : OctetWise CallSite.endsMember := .of_ascii fun c hc => by
  simp only [CallSite.endsMember, Bool.or_eq_true, decide_eq_true_eq] at hc
  rcases hc with rfl | hblank
  · decide
  · exact lt_of_isAsciiBlank hblank

/-- Where the member name after a dot stands. -/
theorem memberSpan_bareAtDot (cursor : Nat) (before after : List Char) :
    (CallSite.bareAtDot cursor before after).memberSpan = ⟨cursor + width before + 1,
      cursor + width before + 1 + width (after.takeWhile fun c => !CallSite.endsMember c)⟩ := by
  simp only [CallSite.memberSpan, CallSite.memberStart, CallSite.bareAtDot,
    add_width_lastIdentifier]

theorem of_bareAtDot (cursor : Nat) (before after : List Char) :
    Site.of (CallSite.bareAtDot cursor before after) =
      ⟨cursor + width (beforeIdentifier before), some (lastIdentifier before),
        after.takeWhile fun c => !CallSite.endsMember c, ⟨cursor + width before + 1,
          cursor + width before + 1 + width (after.takeWhile fun c => !CallSite.endsMember c)⟩,
          none⟩ := by
  rw [Site.of, memberSpan_bareAtDot]
  rfl

theorem callSite_dot (h : RestAt text cursor (before ++ '.' :: after)) :
    callSite text cursor (cursor + width before) .dot =
      .ofExcept ((CallSite.atDot cursor before after).map Site.of) := by
  have hdot : Char.utf8Size '.' = 1 := rfl
  have howner := part_of_restAt (restAt_lastIdentifier h)
  rw [add_width_lastIdentifier] at howner
  have hafter := h.advance.advance_cons
  rw [hdot] at hafter
  have hstop := stopAt_firstOctet? octetWise_endsMember hafter
  have hmember : part text (cursor + width before + 1)
      (cursor + width before + 1 + width (after.takeWhile fun c => !CallSite.endsMember c)) =
      .ok (after.takeWhile fun c => !CallSite.endsMember c) := by
    rw [← List.takeWhile_append_dropWhile (p := fun c => !CallSite.endsMember c)
      (l := after)] at hafter
    exact part_of_restAt hafter
  have hspan := span_of_le (Nat.le_add_right (cursor + width before + 1)
    (width (after.takeWhile fun c => !CallSite.endsMember c)))
  have hlist := listAfter_eq (CallSite.restAt_bareAtDot h)
  rw [memberSpan_bareAtDot] at hlist
  rw [callSite, identifierStart_eq h, Outcome.ok_bind, howner, Outcome.ok_bind, range_to_end hafter,
    Outcome.ok_bind]
  dsimp only
  rw [hstop, hmember, Outcome.ok_bind, hspan, Outcome.ok_bind, ← of_bareAtDot,
    Site.isWellFormed_candidate, CallSite.atDot_eq]
  split
  · change (listAfter text (CallSite.bareAtDot cursor before after).start _ >>= _) = _
    rw [hlist]
    cases (CallSite.bareAtDot cursor before after).listAfter with
    | error e => rfl
    | ok list =>
      change _ = Outcome.ok { Site.of (CallSite.bareAtDot cursor before after) with
        list := list.map ListSite.of }
      rw [of_bareAtDot]
      rfl
  · rfl

/-- A call site is read without panic, unless it is looked for at a quote. -/
theorem callSite_eq {cut : MarkedCut} (hmark : cut.mark ≠ .quote)
    (h : RestAt text cursor (cut.before ++ cut.mark.char :: cut.after)) :
    callSite text cursor (cursor + width cut.before) cut.mark =
      .ofExcept ((CallSite.read cursor cut).map Site.of) := by
  unfold CallSite.read
  cases hcut : cut.mark with
  | dot =>
    rw [hcut] at h
    exact callSite_dot h
  | paren =>
    rw [hcut] at h
    exact callSite_paren h
  | quote => exact absurd hcut hmark

end Sites

end Octets

end SceneExpr
