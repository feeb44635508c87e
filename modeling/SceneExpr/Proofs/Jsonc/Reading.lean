import SceneExpr.Proofs.Jsonc.Parts

namespace SceneExpr.Json

/-- The characters of numbers and of the names `true`, `false` and `null`. -/
def isWord (c : Char) : Bool := isNumeric c || c.isAlpha

theorem isWord_ne {c d : Char} (h : isWord c = true) (hd : isWord d = false) : c ≠ d := by
  rintro rfl
  rw [h] at hd
  cases hd

theorem isBlank_of_isWord {c : Char} (h : isWord c = true) : isBlank c = false := by
  rcases Bool.or_eq_true_iff.1 h with h | h
  · exact Jsonc.isBlank_of_isNumeric h
  · have hrange : 0x41 ≤ c.toNat ∧ c.toNat ≤ 0x7A := by
      simp only [Char.isAlpha, Char.isUpper, Char.isLower, Bool.or_eq_true, Bool.and_eq_true,
        decide_eq_true_eq] at h
      rcases h with ⟨hle, hge⟩ | ⟨hle, hge⟩
      · exact ⟨hle, Nat.le_trans hge (by decide)⟩
      · exact ⟨Nat.le_trans (by decide) hle, hge⟩
    simp only [isBlank, blankRanges, List.any_cons, List.any_nil, Bool.or_eq_false_iff,
      Bool.and_eq_false_iff, decide_eq_false_iff_not, and_true]
    omega

namespace Token

/-- A token that is no string is a single character or a word. -/
theorem exists_word {t : Token} (h : t.WellSpelled) (hstring : ∀ body, t ≠ .string body) :
    ∃ c w, t.text = c :: w ∧ c ≠ '"' ∧ isBlank c = false ∧
      t.closes = (c = '}' || c = ']') ∧
      (w ≠ [] → isWord c = true) ∧ ∀ d ∈ w, isWord d = true := by
  cases t with
  | string body => exact absurd rfl (hstring body)
  | number lexeme =>
    obtain ⟨c, w, rfl⟩ := List.exists_cons_of_ne_nil (ne_nil_of_wellSpelled h)
    have hword : ∀ d ∈ c :: w, isWord d = true := fun d hd => by
      rw [isWord, isNumeric_of_wellSpelled h hd, Bool.true_or]
    have hc := hword c List.mem_cons_self
    refine ⟨c, w, rfl, isWord_ne hc rfl, isBlank_of_isWord hc, ?_, fun _ => hc,
      fun d hd => hword d (List.mem_cons_of_mem c hd)⟩
    simp [closes, isWord_ne hc (d := '}') rfl, isWord_ne hc (d := ']') rfl]
  | bool value =>
    cases value <;> exact ⟨_, _, rfl, by decide, rfl, rfl, fun _ => rfl, List.all_eq_true.1 rfl⟩
  | null => exact ⟨_, _, rfl, by decide, rfl, rfl, fun _ => rfl, List.all_eq_true.1 rfl⟩
  | _ => exact ⟨_, _, rfl, by decide, rfl, rfl, fun h => absurd rfl h, List.forall_mem_nil _⟩

end Token

theorem IsBody.paired {body : List Char} (h : IsBody body) : Literal.Paired body := by
  induction h with
  | nil => exact .nil
  | @unit a b c d cs hu _ ih =>
    have hplain (e : Char) (he : e ∈ [a, b, c, d]) : e ≠ '"' ∧ e ≠ '\\' :=
      Jsonc.ne_of_hexValue? (Jsonc.hexValue?_of_unit? hu e he)
    exact .escape 'u' (.plain (hplain a (by simp)).1 (hplain a (by simp)).2
      (.plain (hplain b (by simp)).1 (hplain b (by simp)).2
      (.plain (hplain c (by simp)).1 (hplain c (by simp)).2
      (.plain (hplain d (by simp)).1 (hplain d (by simp)).2 ih))))
  | escape _ _ ih => exact .escape _ ih
  | char hquote hslash _ _ ih => exact .plain hquote hslash ih

end SceneExpr.Json

namespace SceneExpr.Jsonc

open Json (isGap isWord Token Spells)

/-- No comment stands between two characters that would be a word without it. -/
def Unsplit (ps : List Part) : Prop :=
  ∀ a b n, isWord a = true → isWord b = true →
    ¬ .char a :: (List.replicate (n + 1) .comment ++ [.char b]) <:+: ps

/-- What stands in the place of comments keeps the words of the document: nothing, or gaps if no
word is split. -/
def KeepsWords (gap : List Char) (ps : List Part) : Prop :=
  gap = [] ∨ (∀ c ∈ gap, isGap c = true) ∧ Unsplit ps

/-- The first tokens are the second ones and a comma in front of some that close an array or object.
The token in front of such a comma is of a certain kind; the flag tells whether the one in front of
the first is. -/
inductive Surplus (front : Token → Bool) :
    (behindFront : Bool) → List Token → List Token → Prop where
  | nil {b : Bool} : Surplus front b [] []
  | token {b : Bool} {t : Token} {us ts : List Token} : Surplus front (front t) us ts →
      Surplus front b (t :: us) (t :: ts)
  | comma {t : Token} {us ts : List Token} : t.closes = true → Surplus front (front t) us ts →
      Surplus front true (.comma :: t :: us) (t :: ts)

namespace Surplus

variable {front : Token → Bool} {b : Bool} {us ts : List Token}

theorem forall_wellSpelled (h : Surplus front b us ts) (hts : ∀ t ∈ ts, t.WellSpelled) :
    ∀ u ∈ us, u.WellSpelled := by
  induction h with
  | nil => exact hts
  | token _ ih =>
    obtain ⟨ht, hts⟩ := List.forall_mem_cons.1 hts
    exact List.forall_mem_cons.2 ⟨ht, ih hts⟩
  | comma _ _ ih =>
    obtain ⟨ht, hts⟩ := List.forall_mem_cons.1 hts
    exact List.forall_mem_cons.2 ⟨trivial, List.forall_mem_cons.2 ⟨ht, ih hts⟩⟩

theorem head? (h : Surplus front b us ts) : us.head? = some .comma ∨ us.head? = ts.head? := by
  cases h with
  | nil => exact .inr rfl
  | token _ => exact .inr rfl
  | comma _ _ => exact .inl rfl

theorem apart (h : Surplus front b us ts) (hts : Json.Apart ts) : Json.Apart us := by
  have hfirst {t : Token} {us ts : List Token} (h : Surplus front (front t) us ts)
      (hts : Json.Apart (t :: ts)) :
      ∀ lexeme, t = .number lexeme →
        ∀ u ∈ us.head?, ∀ lexeme', u ≠ .number lexeme' := by
    rintro lexeme hlexeme u hu
    rcases h.head? with hcomma | hhead
    · rw [hcomma] at hu
      obtain rfl := Option.some.inj hu
      simp
    · exact hts.1 lexeme hlexeme u (hhead ▸ hu)
  induction h with
  | nil => trivial
  | token hus ih => exact ⟨hfirst hus hts, ih hts.2⟩
  | comma _ hus ih => exact ⟨by simp, hfirst hus hts, ih hts.2⟩

end Surplus

def endsOrOpens (t : Token) : Bool := endsElement t || t = .openArray || t = .openObject

section Parts

variable {ps qs : List Part} {gap : List Char}

theorem KeepsWords.forall_isGap (h : KeepsWords gap ps) : ∀ c ∈ gap, isGap c = true := by
  rcases h with rfl | h
  · simp
  · exact h.1

theorem KeepsWords.of_suffix (h : KeepsWords gap ps) (hqs : qs <:+ ps) : KeepsWords gap qs :=
  h.imp_right fun ⟨hgap, hunsplit⟩ =>
    ⟨hgap, fun a b n ha hb hsplit => hunsplit a b n ha hb (hsplit.trans hqs.isInfix)⟩

theorem fill_cons (gap : List Char) (part : Part) (ps : List Part) :
    fill gap (part :: ps) = part.text gap ++ fill gap ps := rfl

/-- A bracket or a blank in front of it is left where a comma was dropped. -/
theorem not_isWord_of_closesFirst (h : closesFirst ps = true) {d : Char} {rest : List Char}
    (hprune : prune ps = d :: rest) : isWord d = false := by
  induction ps with
  | nil => simp [closesFirst] at h
  | cons part ps ih =>
    cases part with
    | comment => exact ih h hprune
    | literal text => simp [closesFirst] at h
    | char c =>
      have hcomma : c ≠ ',' := by
        rintro rfl
        simp [closesFirst, show isBlank ',' = false by decide] at h
      rw [prune, if_neg fun hc => hcomma hc.1] at hprune
      obtain ⟨rfl, -⟩ := List.cons.inj hprune
      rw [Bool.eq_false_iff]
      intro hword
      rw [closesFirst, Json.isBlank_of_isWord hword] at h
      simp [Json.isWord_ne hword (d := '}') rfl, Json.isWord_ne hword (d := ']') rfl] at h

/-- Only comments stand in front of the first character that is left, if that belongs to a word. -/
theorem exists_char_of_prune (hps : Lexed ps) {d : Char} {rest : List Char}
    (h : prune ps = d :: rest) (hd : isWord d = true) :
    ∃ n qs, ps = List.replicate n .comment ++ .char d :: qs ∧ Lexed qs ∧ prune qs = rest := by
  induction hps with
  | nil => cases h
  | @comment ps _ ih =>
    obtain ⟨n, qs, rfl, hqs, hrest⟩ := ih h
    exact ⟨n + 1, qs, rfl, hqs, hrest⟩
  | @char c ps hquote hps _ =>
    rw [prune] at h
    split at h
    next hcomma =>
      rw [not_isWord_of_closesFirst hcomma.2 h] at hd
      cases hd
    next =>
      obtain ⟨rfl, rfl⟩ := List.cons.inj h
      exact ⟨0, ps, rfl, hps, rfl⟩
  | literal =>
    rw [← (List.cons.inj h).1] at hd
    cases hd
  | unclosed =>
    rw [← (List.cons.inj h).1] at hd
    cases hd

/-- The rest of a word stands behind its first character with nothing but comments in between. -/
theorem exists_rest_of_word {c : Char} {w rest : List Char} (hps : Lexed ps)
    (h : prune ps = w ++ rest) (hc : w ≠ [] → isWord c = true)
    (hw : ∀ d ∈ w, isWord d = true) :
    ∃ qs, qs <:+ ps ∧ Lexed qs ∧ prune qs = rest ∧
      ∀ gap, KeepsWords gap (.char c :: ps) → fill gap ps = w ++ fill gap qs := by
  induction w generalizing c ps with
  | nil => exact ⟨ps, List.suffix_rfl, hps, h, fun _ _ => rfl⟩
  | cons d w ih =>
    obtain ⟨hd, hw⟩ := List.forall_mem_cons.1 hw
    obtain ⟨n, qs, rfl, hqs, hprune⟩ := exists_char_of_prune hps h hd
    obtain ⟨qs', hsuffix, hqs', hrest, hfill⟩ := ih hqs hprune (fun _ => hd) hw
    have hbehind : .char d :: qs <:+ List.replicate n .comment ++ .char d :: qs :=
      List.suffix_append _ _
    refine ⟨qs', (hsuffix.trans (List.suffix_cons _ _)).trans hbehind, hqs', hrest,
      fun gap hgap => ?_⟩
    have hpast := hfill gap (hgap.of_suffix (hbehind.trans (List.suffix_cons _ _)))
    -- In the place of the comments there is nothing, or there are none.
    have hcomments : (List.replicate n Part.comment).flatMap (Part.text gap) = [] := by
      rcases hgap with rfl | ⟨-, hunsplit⟩
      · simp [Part.text]
      · cases n with
        | zero => rfl
        | succ n =>
          refine absurd ⟨[], qs, ?_⟩ (hunsplit c d n (hc (List.cons_ne_nil d w)) hd)
          simp
    rw [fill, List.flatMap_append, hcomments, List.nil_append]
    change d :: fill gap qs = _
    rw [hpast]
    rfl

/-- A token is a literal, or a character with the rest of a word behind it. -/
theorem exists_rest_of_token {part : Part} (hps : Lexed (part :: ps)) (hpart : part ≠ .comment)
    {t : Token} (ht : t.WellSpelled) {rest : List Char}
    (h : part.text [] ++ prune ps = t.text ++ rest) :
    closesFirst (part :: ps) = t.closes ∧ ∃ qs, qs <:+ ps ∧ Lexed qs ∧ prune qs = rest ∧
      ∀ gap, KeepsWords gap (part :: ps) → fill gap (part :: ps) = t.text ++ fill gap qs := by
  -- A token that begins with a quote is a string, and the literal ends where the string does.
  have hstring (cs : List Char) (hquote : '"' :: cs = t.text ++ rest) :
      ∃ body, t = .string body ∧ Literal.cut? cs = some (body, rest) := by
    by_cases hbody : ∃ body, t = .string body
    · obtain ⟨body, rfl⟩ := hbody
      refine ⟨body, rfl, ?_⟩
      have hcs : cs = body ++ '"' :: rest := by simpa [Token.text] using hquote
      rw [hcs, (Json.IsBody.paired ht).cut?_eq]
    · obtain ⟨c, w, htext, hc, -⟩ := Token.exists_word ht (not_exists.1 hbody)
      rw [htext] at hquote
      exact absurd (List.cons.inj hquote).1.symm hc
  cases hps with
  | comment => exact absurd rfl hpart
  | @char c ps hquote hps =>
    have hword : ∀ body, t ≠ .string body := by
      rintro body rfl
      exact hquote (List.cons.inj h).1
    obtain ⟨d, w, htext, -, hblank, hcloses, hd, hw⟩ := Token.exists_word ht hword
    rw [htext] at h
    obtain ⟨rfl, htail⟩ := List.cons.inj h
    obtain ⟨qs, hsuffix, hqs, hrest, hfill⟩ := exists_rest_of_word hps htail hd hw
    refine ⟨by rw [closesFirst, hblank, hcloses]; rfl, qs, hsuffix, hqs, hrest,
      fun gap hgap => ?_⟩
    rw [fill_cons, hfill gap hgap, htext]
    rfl
  | @literal raw ps hraw hps =>
    have hcut := hraw.cut?_eq (prune ps)
    obtain ⟨body, rfl, hcut'⟩ := hstring (raw ++ '"' :: prune ps) (by simpa [Part.text] using h)
    obtain ⟨rfl, rfl⟩ := Prod.mk.inj (Option.some.inj (hcut.symm.trans hcut'))
    exact ⟨rfl, ps, List.suffix_rfl, hps, rfl, fun _ _ => rfl⟩
  | @unclosed cs hcut =>
    obtain ⟨body, -, hcut'⟩ := hstring cs (by simpa [Part.text, prune] using h)
    rw [hcut] at hcut'
    cases hcut'

end Parts

/-- The tokens that are left of the parts and those that they had. If the first of them closes
something, it has stood in front all along. -/
structure Reading (behindFront : Bool) (ps : List Part) (ts us : List Token) : Prop where
  surplus : Surplus endsOrOpens behindFront us ts
  first : closesFirst ps = true → ∃ t us' ts', us = t :: us' ∧ ts = t :: ts' ∧
    t.closes = true ∧
    Surplus endsOrOpens (endsOrOpens t) us' ts'
  spells : ∀ gap, KeepsWords gap ps → Spells us (fill gap ps)

namespace Reading

variable {b : Bool} {ps qs : List Part} {ts us : List Token}

theorem nil : Reading b [] [] [] where
  surplus := .nil
  first h := by cases h
  spells _ _ := .last (by simp [fill])

theorem comment (h : Reading b ps ts us) : Reading b (.comment :: ps) ts us where
  surplus := h.surplus
  first := h.first
  spells gap hgap :=
    (h.spells gap (hgap.of_suffix (List.suffix_cons _ _))).gap_append hgap.forall_isGap

theorem gap {c : Char} (hc : isGap c = true) (h : Reading b ps ts us) :
    Reading b (.char c :: ps) ts us where
  surplus := h.surplus
  first hcloses := by
    rw [closesFirst, isBlank_of_isGap hc] at hcloses
    exact h.first hcloses
  spells gap hgap := (h.spells gap (hgap.of_suffix (List.suffix_cons _ _))).gap_append
    (by simpa [Part.text] using hc)

/-- A comma in front of a bracket is dropped. -/
theorem comma (hcloses : closesFirst ps = true) (h : Reading true ps ts us) :
    Reading true (.char ',' :: ps) ts (.comma :: us) where
  surplus := by
    obtain ⟨t, us', ts', rfl, rfl, ht, hsurplus⟩ := h.first hcloses
    exact .comma ht hsurplus
  first hfirst := by
    rw [closesFirst, show isBlank ',' = false by decide] at hfirst
    cases hfirst
  spells gap hgap :=
    .token (List.forall_mem_nil _) (h.spells gap (hgap.of_suffix (List.suffix_cons _ _)))

theorem token {t : Token} (hcloses : closesFirst ps = t.closes) (hqs : qs <:+ ps)
    (hfill : ∀ gap, KeepsWords gap ps → fill gap ps = t.text ++ fill gap qs)
    (h : Reading (endsOrOpens t) qs ts us) : Reading b ps (t :: ts) (t :: us) where
  surplus := .token h.surplus
  first hfirst := ⟨t, us, ts, rfl, rfl, hcloses ▸ hfirst, h.surplus⟩
  spells gap hgap := by
    rw [hfill gap hgap]
    exact .token (List.forall_mem_nil _) (h.spells gap (hgap.of_suffix hqs))

end Reading

section Documents

open Json (read? step? Frame Goal)

variable {stack stack' : List Frame} {goal goal' : Goal} {document : Json}

theorem goal_of_colon (h : step? stack goal .colon = some (stack', goal')) : goal' = .value := by
  cases goal with
  | colon => exact (Prod.mk.inj (Option.some.inj h)).2.symm
  | separator => simp [step?, Json.close?] at h
  | _ => simp [step?, Json.beginValue?, Json.beginKey?] at h

/-- Neither a value nor a key begins with a closing bracket. -/
theorem step?_of_closes {u : Token} (hu : u.closes = true) (hgoal : goal = .value ∨ goal = .key) :
    step? stack goal u = none := by
  cases u with
  | closeObject => rcases hgoal with rfl | rfl <;> simp [step?, Json.beginValue?, Json.beginKey?]
  | closeArray => rcases hgoal with rfl | rfl <;> simp [step?, Json.beginValue?, Json.beginKey?]
  | _ => cases hu

/-- What closes an array or an object stands behind an element or the opening bracket. -/
theorem endsOrOpens_of_step? {t u : Token} (hstep : step? stack goal t = some (stack', goal'))
    (hu : u.closes = true) (hnext : (step? stack' goal' u).isSome = true) :
    endsOrOpens t = true := by
  cases t with
  | comma => simp [step?_of_closes hu (Json.goal_of_comma hstep)] at hnext
  | colon => simp [step?_of_closes hu (.inl (goal_of_colon hstep))] at hnext
  | _ => rfl

/-- A document that is left had the same tokens before, but for commas in front of closing
brackets. -/
theorem exists_reading {ps : List Part} (hps : Lexed ps) {ts : List Token}
    (hspells : Spells ts (prune ps)) (hwell : ∀ t ∈ ts, t.WellSpelled)
    (hread : read? stack goal ts = some document) {b : Bool}
    (hb : ∀ u, u.closes = true → (step? stack goal u).isSome = true → b = true) :
    ∃ us, Reading b ps ts us := by
  induction hlength : ps.length using Nat.strong_induction_on generalizing ps ts stack goal b with
  | _ n ih =>
    subst hlength
    -- A token: it is read off the parts, and the rest is read from the goal behind it.
    have htoken (part : Part) (qs : List Part) (hpart : part ≠ .comment) (heq : ps = part :: qs)
        (hprune : prune ps = part.text [] ++ prune qs) (c : Char) (cs : List Char)
          (hfirst : prune ps = c :: cs)
        (hc : isGap c = false) : ∃ us, Reading b ps ts us := by
      subst heq
      rw [hfirst] at hspells
      obtain ⟨t, us, past, rfl, htext, hus⟩ := hspells.exists_token hc
      obtain ⟨ht, hwell⟩ := List.forall_mem_cons.1 hwell
      obtain ⟨hcloses, qs', hsuffix, hqs', rfl, hfill⟩ :=
        exists_rest_of_token hps hpart ht (hprune.symm.trans (hfirst.trans htext))
      rw [read?] at hread
      split at hread
      · cases hread
      next stack' goal' hstep =>
        obtain ⟨us', hus'⟩ :=
          ih qs'.length (Nat.lt_succ_of_le hsuffix.length_le) hqs' hus hwell hread
          (fun u hu hnext => endsOrOpens_of_step? hstep hu hnext) rfl
        exact ⟨t :: us', .token hcloses (hsuffix.trans (List.suffix_cons _ _)) hfill hus'⟩
    cases hps with
    | nil =>
      obtain rfl := hspells.eq_nil hwell
      exact ⟨[], .nil⟩
    | @comment ps hps =>
      obtain ⟨us, hus⟩ := ih ps.length (Nat.lt_succ_self _) hps hspells hwell hread hb rfl
      exact ⟨us, hus.comment⟩
    | @char c ps hquote hps =>
      by_cases hcomma : c = ',' ∧ closesFirst ps = true
      · obtain ⟨rfl, hcloses⟩ := hcomma
        rw [prune, if_pos ⟨rfl, hcloses⟩] at hspells
        obtain ⟨us, hus⟩ := ih ps.length (Nat.lt_succ_self _) hps hspells hwell hread hb rfl
        -- The bracket is read from the goal, so an element or the opening bracket stands in front
        -- of the comma.
        obtain ⟨t, us', ts', -, rfl, ht, -⟩ := hus.first hcloses
        have hstep : (step? stack goal t).isSome = true := by
          rw [read?] at hread
          split at hread
          · cases hread
          next _ _ hstep => rw [hstep, Option.isSome_some]
        obtain rfl := hb t ht hstep
        exact ⟨.comma :: us, .comma hcloses hus⟩
      · have hprune : prune (.char c :: ps) = c :: prune ps := if_neg hcomma
        cases hc : isGap c with
        | false => exact htoken (.char c) ps (by simp) rfl hprune c (prune ps) hprune hc
        | true =>
          rw [hprune] at hspells
          have hpast := hspells.of_gap_cons hwell hc
          obtain ⟨us, hus⟩ := ih ps.length (Nat.lt_succ_self _) hps hpast hwell hread hb rfl
          exact ⟨us, hus.gap hc⟩
    | @literal raw ps hraw hps =>
      exact htoken _ ps (by simp) rfl rfl '"' (raw ++ ['"'] ++ prune ps) rfl (by decide)
    | @unclosed cs hcut =>
      exact htoken _ [] (by simp) rfl rfl '"' (cs ++ []) rfl (by decide)

end Documents

/-- A text that is a document after stripping had the same tokens before, but for commas in front of
closing brackets. This holds without its comments, and with blanks in their places if no comment
stands within a word. -/
theorem tokens?_of_parse?_strip {cs : List Char} {document : Json}
    (h : Json.parse? (strip cs) = some document) :
    ∃ ts us, Json.tokens? (strip cs) = some ts ∧ Surplus endsOrOpens false us ts ∧
      ∀ gap, KeepsWords gap (parts cs) → Json.tokens? (fill gap (parts cs)) = some us := by
  obtain ⟨ts, hts, hread⟩ := Option.bind_eq_some_iff.1 h
  obtain ⟨hspells, hwell⟩ := Json.spells_of_tokens? hts
  rw [strip_eq_prune] at hspells
  -- No bracket closes anything where the document begins.
  obtain ⟨us, hus⟩ :=
    exists_reading (lexed_parts cs) hspells hwell hread (b := false) fun u hu hstep => by
    simp [step?_of_closes hu (.inl rfl)] at hstep
  refine ⟨ts, us, hts, hus.surplus, fun gap hgap => ?_⟩
  exact Json.tokens?_of_apart (hus.spells gap hgap) (hus.surplus.forall_wellSpelled hwell)
    (hus.surplus.apart (Json.apart_of_orderly (Json.orderly_of_read? hread)))

theorem tokens?_of_parse?_strip_commented :
    ∃ ts us, Json.tokens? (strip "[1 /* one */ ,] // done".toList) = some ts ∧
      Surplus endsOrOpens false us ts ∧ Json.tokens? "[1   ,]  ".toList = some us := by
  have hread : Json.parse? (strip "[1 /* one */ ,] // done".toList) =
      some (.array [.number ['1']]) := by cbv
  obtain ⟨ts, us, hts, hsurplus, hus⟩ := tokens?_of_parse?_strip hread
  have hparts : parts "[1 /* one */ ,] // done".toList =
      [.char '[', .char '1', .char ' ', .comment, .char ' ',
      .char ',', .char ']', .char ' ', .comment] := by cbv
  have hfill : fill [' '] (parts "[1 /* one */ ,] // done".toList) = "[1   ,]  ".toList := by cbv
  have hunsplit : Unsplit (parts "[1 /* one */ ,] // done".toList) := by
    have hblank : ∀ part ∈ parts "[1 /* one */ ,] // done".toList,
        [part, .comment] <:+: parts "[1 /* one */ ,] // done".toList → part = .char ' ' := by
      rw [hparts]
      decide
    intro a b n ha _ hsplit
    have hpair : [.char a, .comment] <:+: Part.char a ::
        (List.replicate (n + 1) .comment ++ [.char b]) :=
      ⟨[], List.replicate n .comment ++ [.char b], rfl⟩
    cases hblank _ (hsplit.subset List.mem_cons_self) (hpair.trans hsplit)
    cases ha
  have hblanks : KeepsWords [' '] (parts "[1 /* one */ ,] // done".toList) :=
    .inr ⟨List.forall_mem_singleton.2 rfl, hunsplit⟩
  rw [← hfill]
  exact ⟨ts, us, hts, hsurplus, hus [' '] hblanks⟩

/-- A block comment within a number is no gap, and a comma needs no element in front of it. -/
theorem not_tokens?_of_parse?_strip :
    ((Json.parse? (strip "[1/**/2]".toList)).isSome = true ∧
      ¬∃ ts us, Json.tokens? (strip "[1/**/2]".toList) = some ts ∧
      Surplus endsElement false us ts ∧
        Json.tokens? (fill [' '] (parts "[1/**/2]".toList)) = some us) ∧
    (Json.parse? (strip "[,]".toList)).isSome = true ∧
      ¬∃ ts us, Json.tokens? (strip "[,]".toList) = some ts ∧
      Surplus endsElement false us ts ∧
        Json.tokens? (fill [' '] (parts "[,]".toList)) = some us := by
  refine ⟨⟨by cbv, ?_⟩, by cbv, ?_⟩
  · rintro ⟨ts, us, hts, hsurplus, hus⟩
    have hglued : Json.tokens? (strip "[1/**/2]".toList) =
        some [.openArray, .number ['1', '2'], .closeArray] := by cbv
    have hspaced : Json.tokens? (fill [' '] (parts "[1/**/2]".toList)) =
        some [.openArray, .number ['1'], .number ['2'], .closeArray] := by cbv
    obtain rfl := Option.some.inj (hglued.symm.trans hts)
    obtain rfl := Option.some.inj (hspaced.symm.trans hus)
    cases hsurplus with
    | token hsurplus => cases hsurplus
  · rintro ⟨ts, us, hts, hsurplus, hus⟩
    have hrepaired : Json.tokens? (strip "[,]".toList) = some [.openArray, .closeArray] := by cbv
    have hcomma : Json.tokens? (fill [' '] (parts "[,]".toList)) =
        some [.openArray, .comma, .closeArray] := by cbv
    obtain rfl := Option.some.inj (hrepaired.symm.trans hts)
    obtain rfl := Option.some.inj (hcomma.symm.trans hus)
    cases hsurplus with
    | token hsurplus =>
      change Surplus endsElement false _ _ at hsurplus
      cases hsurplus

end SceneExpr.Jsonc
