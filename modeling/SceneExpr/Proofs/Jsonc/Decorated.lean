import Mathlib
import SceneExpr.Jsonc
import SceneExpr.Proofs.Json.Spelling

namespace SceneExpr.Jsonc

open Json (isGap Token)

/-- Gaps, closed comments of both kinds, and any number of them. -/
inductive Trivia : List Char → Prop where
  | nil : Trivia []
  | gap {c : Char} {w : List Char} : isGap c = true → Trivia w → Trivia (c :: w)
  | block {body w : List Char} : ¬['*', '/'] <:+: body → Trivia w →
      Trivia ('/' :: '*' :: (body ++ '*' :: '/' :: w))
  | line {body w : List Char} : '\n' ∉ body → Trivia w →
      Trivia ('/' :: '/' :: (body ++ '\n' :: w))

def endsElement : Token → Bool
  | .openObject | .openArray | .colon | .comma => false
  | _ => true

/-- A text of the tokens with decorations between them and at both ends. The flag tells whether an
element ends right in front of the text. -/
inductive Decorated : (behindElement : Bool) → List Token → List Char → Prop where
  | last {b : Bool} {w : List Char} : Trivia w → Decorated b [] w
  | lastLine {b : Bool} {w body : List Char} : Trivia w → '\n' ∉ body →
      Decorated b [] (w ++ '/' :: '/' :: body)
  | token {b : Bool} {w : List Char} {t : Token} {ts : List Token} {cs : List Char} : Trivia w →
      Decorated (endsElement t) ts cs → Decorated b (t :: ts) (w ++ (t.text ++ cs))
  | comma {w w' : List Char} {t : Token} {ts : List Token} {cs : List Char} : t.closes = true →
      Trivia w → Trivia w' → Decorated (endsElement t) ts cs →
      Decorated true (t :: ts) (w ++ ',' :: (w' ++ (t.text ++ cs)))

theorem Trivia.of_gap {gap : List Char} (h : ∀ c ∈ gap, isGap c = true) : Trivia gap := by
  induction gap with
  | nil => exact .nil
  | cons c gap ih =>
    exact .gap (h c List.mem_cons_self) (ih fun d hd => h d (List.mem_cons_of_mem c hd))

/-- Gaps are decorations. -/
theorem decorated_of_spells {ts : List Token} {cs : List Char} (h : Json.Spells ts cs) (b : Bool) :
    Decorated b ts cs := by
  induction h generalizing b with
  | last hgap => exact .last (.of_gap hgap)
  | token hgap _ ih => exact .token (.of_gap hgap) (ih _)

section Characters

/-- The characters that stripping copies wherever they stand outside of literals and comments. -/
def isPlain (c : Char) : Bool := c ≠ '"' && c ≠ '/' && c ≠ ','

theorem strip_cons_of_isPlain {c : Char} (h : isPlain c = true) (cs : List Char) :
    strip (c :: cs) = c :: strip cs := by
  simp only [isPlain, Bool.and_eq_true, decide_eq_true_eq] at h
  rw [strip]
  · exact h.1.1
  · exact fun _ hc => absurd hc h.1.2
  · exact fun _ hc => absurd hc h.1.2
  · exact h.2

theorem strip_append_of_isPlain {l : List Char} (h : ∀ c ∈ l, isPlain c = true)
    (cs : List Char) :
    strip (l ++ cs) = l ++ strip cs := by
  induction l with
  | nil => rfl
  | cons c l ih =>
    rw [List.cons_append, strip_cons_of_isPlain (h c List.mem_cons_self),
      ih fun d hd => h d (List.mem_cons_of_mem c hd)]
    rfl

theorem isPlain_of_isGap {c : Char} (h : isGap c = true) : isPlain c = true := by
  simp only [isGap, Bool.or_eq_true, decide_eq_true_eq] at h
  rcases h with ((rfl | rfl) | rfl) | rfl <;> decide

theorem isBlank_of_isGap {c : Char} (h : isGap c = true) : isBlank c = true := by
  simp only [isGap, Bool.or_eq_true, decide_eq_true_eq] at h
  rcases h with ((rfl | rfl) | rfl) | rfl <;> decide

theorem closes_cons {c : Char} (h : c ≠ '/') (cs : List Char) :
    closes (c :: cs) = if isBlank c then closes cs else c = '}' || c = ']' := by
  rw [closes]
  · exact fun _ hc => absurd hc h
  · exact fun _ hc => absurd hc h

end Characters

section Comments

/-- Nothing in the body of a line comment ends the comment. -/
theorem line_induction {motive : List Char → Prop} {past : List Char} (nil : motive past)
    (cons : ∀ c rest, c ≠ '\n' → motive rest → motive (c :: rest)) {body : List Char}
    (h : '\n' ∉ body) : motive (body ++ past) := by
  induction body with
  | nil => exact nil
  | cons c body ih =>
    obtain ⟨hc, hbody⟩ := not_or.1 (mt List.mem_cons.2 h)
    exact cons c _ (Ne.symm hc) (ih hbody)

theorem stripLine_append {body : List Char} (h : '\n' ∉ body) (cs : List Char) :
    stripLine (body ++ cs) = stripLine cs := by
  refine line_induction (motive := fun text => stripLine text = stripLine cs) rfl ?_ h
  intro c rest hc ih
  rw [stripLine, if_neg hc, ih]

theorem closesPastLine_append {body : List Char} (h : '\n' ∉ body) (cs : List Char) :
    closesPastLine (body ++ cs) = closesPastLine cs := by
  refine line_induction (motive := fun text => closesPastLine text = closesPastLine cs) rfl ?_ h
  intro c rest hc ih
  rw [closesPastLine, if_neg hc, ih]

/-- Nothing in the body of a block comment ends the comment. -/
theorem block_induction {motive : List Char → Prop} {cs : List Char}
    (nil : motive ('*' :: '/' :: cs))
    (cons : ∀ c rest, (∀ past, c = '*' → rest = '/' :: past → False) → motive rest →
      motive (c :: rest))
    {body : List Char} (h : ¬['*', '/'] <:+: body) : motive (body ++ '*' :: '/' :: cs) := by
  induction body with
  | nil => exact nil
  | cons c body ih =>
    refine cons c _ ?_ (ih fun hbody => h (List.infix_cons hbody))
    rintro past rfl hpast
    -- The star is the last one of the body, or else the body would hold the end of the comment.
    cases body with
    | nil => cases hpast
    | cons d body =>
      obtain ⟨rfl, -⟩ := List.cons.inj hpast
      exact h ⟨[], body, rfl⟩

theorem stripBlock_append {body : List Char} (h : ¬['*', '/'] <:+: body) (cs : List Char) :
    stripBlock (body ++ '*' :: '/' :: cs) = strip cs := by
  refine block_induction (motive := fun text => stripBlock text = strip cs) rfl ?_ h
  intro c rest hopen ih
  rw [stripBlock, ih]
  exact hopen

theorem closesPastBlock_append {body : List Char} (h : ¬['*', '/'] <:+: body) (cs : List Char) :
    closesPastBlock (body ++ '*' :: '/' :: cs) = closes cs := by
  refine block_induction (motive := fun text => closesPastBlock text = closes cs) rfl ?_ h
  intro c rest hopen ih
  rw [closesPastBlock, ih]
  exact hopen

theorem closes_append_of_trivia {w : List Char} (h : Trivia w) (cs : List Char) :
    closes (w ++ cs) = closes cs := by
  induction h with
  | nil => rfl
  | @gap c w hc _ ih =>
    have hslash : c ≠ '/' := by
      rintro rfl
      exact absurd hc (by decide)
    rw [List.cons_append, closes_cons hslash, if_pos (isBlank_of_isGap hc), ih]
  | block hbody _ ih =>
    simp only [List.cons_append, List.append_assoc, closes, closesPastBlock_append hbody, ih]
  | line hbody _ ih =>
    simp only [List.cons_append, List.append_assoc, closes, closesPastLine_append hbody,
      closesPastLine, if_pos, ih]

/-- Of trivia the gaps are left, and the line feed that ends a line comment. -/
theorem exists_strip_trivia {w : List Char} (h : Trivia w) :
    ∃ gap, (∀ c ∈ gap, isGap c = true) ∧ ∀ cs, strip (w ++ cs) = gap ++ strip cs := by
  induction h with
  | nil => exact ⟨[], by simp, fun _ => rfl⟩
  | @gap c w hc _ ih =>
    obtain ⟨gap, hgap, hstrip⟩ := ih
    refine ⟨c :: gap, List.forall_mem_cons.2 ⟨hc, hgap⟩, fun cs => ?_⟩
    rw [List.cons_append, strip_cons_of_isPlain (isPlain_of_isGap hc), hstrip]
    rfl
  | block hbody _ ih =>
    obtain ⟨gap, hgap, hstrip⟩ := ih
    refine ⟨gap, hgap, fun cs => ?_⟩
    simp only [List.cons_append, List.append_assoc, strip, stripBlock_append hbody, hstrip]
  | line hbody _ ih =>
    obtain ⟨gap, hgap, hstrip⟩ := ih
    refine ⟨'\n' :: gap, List.forall_mem_cons.2 ⟨rfl, hgap⟩, fun cs => ?_⟩
    simp only [List.cons_append, List.append_assoc, strip, stripLine_append hbody, stripLine,
      if_pos, hstrip]

end Comments

section Tokens

theorem stripLiteral_cons {c : Char} (hquote : c ≠ '"') (hslash : c ≠ '\\') (cs : List Char) :
    stripLiteral (c :: cs) = c :: stripLiteral cs := by
  rw [stripLiteral]
  · exact fun _ _ hc => absurd hc hslash
  · exact hquote

theorem ne_of_hexValue? {c : Char} (h : (Json.hexValue? c).isSome = true) :
    c ≠ '"' ∧ c ≠ '\\' := by
  constructor <;> (rintro rfl; exact absurd h (by decide))

theorem hexValue?_of_unit? {a b c d : Char} (h : (Json.unit? a b c d).isSome = true) :
    ∀ e ∈ [a, b, c, d], (Json.hexValue? e).isSome = true := by
  simp only [Json.unit?, Option.isSome_iff_exists, Option.bind_eq_bind,
    Option.bind_eq_some_iff] at h
  obtain ⟨n, w, hw, x, hx, y, hy, z, hz, -⟩ := h
  simp [hw, hx, hy, hz]

/-- The body of a string comes through as it is. -/
theorem stripLiteral_body {body : List Char} (h : Json.IsBody body) (cs : List Char) :
    stripLiteral (body ++ '"' :: cs) = body ++ '"' :: strip cs := by
  induction h with
  | nil => rfl
  | @unit a b c d body hu _ ih =>
    have hdigit (e : Char) (he : e ∈ [a, b, c, d]) (rest : List Char) :
        stripLiteral (e :: rest) = e :: stripLiteral rest := by
      obtain ⟨hquote, hslash⟩ := ne_of_hexValue? (hexValue?_of_unit? hu e he)
      exact stripLiteral_cons hquote hslash rest
    simp only [List.cons_append, stripLiteral]
    rw [hdigit a (by simp), hdigit b (by simp), hdigit c (by simp), hdigit d (by simp), ih]
  | escape _ _ ih => simp only [List.cons_append, stripLiteral, ih]
  | char hquote hslash _ _ ih =>
    rw [List.cons_append, stripLiteral_cons hquote hslash, ih, List.cons_append]

theorem ne_of_isNumeric {c d : Char} (h : Json.isNumeric c = true) (hd : Json.isNumeric d = false) :
    c ≠ d := by
  rintro rfl
  rw [h] at hd
  cases hd

theorem isPlain_of_isNumeric {c : Char} (h : Json.isNumeric c = true) : isPlain c = true := by
  simp only [isPlain, Bool.and_eq_true, decide_eq_true_eq]
  exact ⟨⟨ne_of_isNumeric h rfl, ne_of_isNumeric h rfl⟩, ne_of_isNumeric h rfl⟩

theorem isBlank_of_isNumeric {c : Char} (h : Json.isNumeric c = true) : isBlank c = false := by
  have hrange : 0x2B ≤ c.toNat ∧ c.toNat ≤ 0x65 := by
    simp only [Json.isNumeric, Char.isDigit, Bool.or_eq_true, Bool.and_eq_true,
      decide_eq_true_eq] at h
    rcases h with ((((⟨hle, hge⟩ | rfl) | rfl) | rfl) | rfl) | rfl
    · exact ⟨Nat.le_trans (by decide) hle, Nat.le_trans hge (by decide)⟩
    all_goals decide
  simp only [isBlank, blankRanges, List.any_cons, List.any_nil, Bool.or_eq_false_iff,
    Bool.and_eq_false_iff, decide_eq_false_iff_not, and_true]
  omega

theorem strip_text {t : Token} (h : t.WellSpelled) {cs : List Char}
    (hcomma : t = .comma → closes cs = false) : strip (t.text ++ cs) = t.text ++ strip cs := by
  cases t with
  | comma =>
    change strip (',' :: cs) = ',' :: strip cs
    rw [strip, hcomma rfl]
    rfl
  | number lexeme =>
    exact strip_append_of_isPlain
      (fun c hc => isPlain_of_isNumeric (Token.isNumeric_of_wellSpelled h hc)) cs
  | string body =>
    have hbody := stripLiteral_body h cs
    simp only [Token.text, List.cons_append, List.append_assoc, List.nil_append, strip, hbody]
  | bool value => cases value <;> exact strip_append_of_isPlain (by simp [Token.text, isPlain]) cs
  | _ => exact strip_append_of_isPlain (by simp [Token.text, isPlain]) cs

theorem closes_text {t : Token} (h : t.WellSpelled) (cs : List Char) :
    closes (t.text ++ cs) = t.closes := by
  cases t with
  | number lexeme =>
    obtain ⟨c, ds, rfl⟩ := List.exists_cons_of_ne_nil (Token.ne_nil_of_wellSpelled h)
    have hc := Token.isNumeric_of_wellSpelled h (c := c) List.mem_cons_self
    rw [Token.text, List.cons_append, closes_cons (ne_of_isNumeric hc rfl), isBlank_of_isNumeric hc]
    simp [Token.closes, ne_of_isNumeric hc (d := '}') rfl, ne_of_isNumeric hc (d := ']') rfl]
  | bool value => cases value <;> exact closes_cons (by decide) _
  | _ => exact closes_cons (by decide) _

end Tokens

section Stripping

variable {b : Bool} {ts : List Token} {cs : List Char}

/-- Behind a token that no element ends with, a text closes what its first token closes. -/
theorem closes_of_decorated {t : Token} (h : Decorated false (t :: ts) cs) (ht : t.WellSpelled) :
    closes cs = t.closes := by
  cases h with
  | token hw _ => rw [closes_append_of_trivia hw, closes_text ht]

/-- The comma between two elements stays. -/
theorem closes_eq_false {t : Token} (h : Decorated (endsElement t) ts cs)
    (hadmits : t.Admits ts.head?) (hwell : ∀ u ∈ ts, u.WellSpelled) :
    t = .comma → closes cs = false := by
  rintro rfl
  cases ts with
  | nil => exact hadmits.elim
  | cons u us => exact (closes_of_decorated h (hwell u List.mem_cons_self)).trans hadmits

/-- A text without decorations stays as it is. -/
theorem strip_of_spells (h : Json.Spells ts cs) (hwell : ∀ t ∈ ts, t.WellSpelled)
    (horder : Json.Orderly ts) : strip cs = cs := by
  induction h with
  | @last gap hgap =>
    have hstrip := strip_append_of_isPlain (fun c hc => isPlain_of_isGap (hgap c hc)) []
    rwa [List.append_nil, strip, List.append_nil] at hstrip
  | @token gap t ts cs hgap hts ih =>
    obtain ⟨ht, hwell⟩ := List.forall_mem_cons.1 hwell
    rw [strip_append_of_isPlain fun c hc => isPlain_of_isGap (hgap c hc),
      strip_text ht (closes_eq_false (decorated_of_spells hts _) horder.1 hwell), ih hwell horder.2]

/-- Stripping leaves the tokens of a decorated text, with gaps between them. -/
theorem spells_strip (h : Decorated b ts cs) (hwell : ∀ t ∈ ts, t.WellSpelled)
    (horder : Json.Orderly ts) : Json.Spells ts (strip cs) := by
  induction h with
  | @last b w hw =>
    obtain ⟨gap, hgap, hstrip⟩ := exists_strip_trivia hw
    have hall := hstrip []
    rw [List.append_nil, strip, List.append_nil] at hall
    rw [hall]
    exact .last hgap
  | @lastLine b w body hw hbody =>
    obtain ⟨gap, hgap, hstrip⟩ := exists_strip_trivia hw
    have hline := stripLine_append hbody []
    rw [List.append_nil] at hline
    rw [hstrip, strip, hline, stripLine, List.append_nil]
    exact .last hgap
  | @token b w t ts cs hw hts ih =>
    obtain ⟨ht, hwell⟩ := List.forall_mem_cons.1 hwell
    obtain ⟨gap, hgap, hstrip⟩ := exists_strip_trivia hw
    rw [hstrip, strip_text ht (closes_eq_false hts horder.1 hwell)]
    exact .token hgap (ih hwell horder.2)
  | @comma w w' t ts cs hcloses hw hw' hts ih =>
    obtain ⟨ht, hwell⟩ := List.forall_mem_cons.1 hwell
    obtain ⟨gap, hgap, hstrip⟩ := exists_strip_trivia hw
    obtain ⟨gap', hgap', hstrip'⟩ := exists_strip_trivia hw'
    -- The comma sees the bracket through the trivia in between, and its gaps join those in front of
    -- it.
    have hdropped : closes (w' ++ (t.text ++ cs)) = true := by
      rw [closes_append_of_trivia hw', closes_text ht, hcloses]
    rw [hstrip, strip, if_pos hdropped, hstrip', strip_text ht (closes_eq_false hts horder.1 hwell)]
    exact (Json.Spells.token hgap' (ih hwell horder.2)).gap_append hgap

/-- Stripping is the identity on documents, and however a document is decorated, the stripped text
has its tokens and so is the same document. -/
theorem parse?_strip_decorated {cs : List Char} {document : Json}
    (h : Json.parse? cs = some document) :
    strip cs = cs ∧ ∃ ts, Json.tokens? cs = some ts ∧ Decorated false ts cs ∧
      ∀ ds, Decorated false ts ds →
        Json.tokens? (strip ds) = some ts ∧ Json.parse? (strip ds) = some document := by
  obtain ⟨ts, htokens, hread⟩ := Option.bind_eq_some_iff.1 h
  obtain ⟨hspells, hwell⟩ := Json.spells_of_tokens? htokens
  have horder := Json.orderly_of_read? hread
  refine ⟨strip_of_spells hspells hwell horder, ts, htokens,
    decorated_of_spells hspells false, ?_⟩
  intro ds hds
  have hstripped := Json.tokens?_of_spells (spells_strip hds hwell horder) hwell horder
  refine ⟨hstripped, ?_⟩
  rw [Json.parse?, hstripped]
  exact hread

/-- Comments of both kinds that hold brackets, a string that holds comment markers, a comma in front
of a bracket and an escaped quote, and one comma too many. -/
theorem parse?_strip_decorated_array :
    let ts : List Token :=
      [.openArray, .string "//\\\",]".toList, .comma, .number ['1'], .closeArray]
    let document : Json := .array [.string "//\\\",]".toList, .number ['1']]
    let ds := "/*[*/ [\"//\\\",]\" // one\n , 1 /* * */, /**/ ] // ]".toList
    Json.parse? "[\"//\\\",]\", 1]".toList = some document ∧
      strip "[\"//\\\",]\", 1]".toList = "[\"//\\\",]\", 1]".toList ∧ Decorated false ts ds ∧
      strip ds = " [\"//\\\",]\" \n , 1   ] ".toList ∧
      Json.tokens? (strip ds) = some ts ∧ Json.parse? (strip ds) = some document := by
  intro ts document ds
  have hparse : Json.parse? "[\"//\\\",]\", 1]".toList = some document := by cbv
  have htokens : Json.tokens? "[\"//\\\",]\", 1]".toList = some ts := by cbv
  have hds : Decorated false ts ds := by
    have hspace : Trivia [' '] := .gap rfl .nil
    have hlead : Trivia ('/' :: '*' :: (['['] ++ '*' :: '/' :: [' '])) :=
      .block (by decide) hspace
    have hline : Trivia (' ' :: '/' :: '/' :: (" one".toList ++ '\n' :: [' '])) :=
      .gap rfl (.line (by decide) hspace)
    have hbefore : Trivia (' ' :: '/' :: '*' :: (" * ".toList ++ '*' :: '/' :: [])) :=
      .gap rfl (.block (by decide) .nil)
    have hbehind : Trivia (' ' :: '/' :: '*' :: ([] ++ '*' :: '/' :: [' '])) :=
      .gap rfl (.block (by decide) hspace)
    have hend : Decorated true [] ([' '] ++ '/' :: '/' :: " ]".toList) :=
      .lastLine hspace (by decide)
    have hall : Decorated false ts _ :=
      .token hlead (.token .nil (.token hline (.token hspace (.comma rfl hbefore hbehind hend))))
    exact hall
  obtain ⟨hid, ts', htokens', -, hstrip⟩ := parse?_strip_decorated hparse
  obtain rfl := Option.some.inj (htokens.symm.trans htokens')
  have hstripped : strip "/*[*/ [\"//\\\",]\" // one\n , 1 /* * */, /**/ ] // ]".toList =
      " [\"//\\\",]\" \n , 1   ] ".toList := by cbv
  exact ⟨hparse, hid, hds, hstripped, hstrip ds hds⟩

end Stripping

end SceneExpr.Jsonc
