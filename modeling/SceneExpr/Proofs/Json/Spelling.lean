import SceneExpr.Json.Reader
import SceneExpr.Proofs.Json.Numbers

namespace SceneExpr.Json

/-- What may stand between the quotes of a string. -/
inductive IsBody : List Char → Prop where
  | nil : IsBody []
  | unit {a b c d : Char} {cs : List Char} : (unit? a b c d).isSome = true → IsBody cs →
      IsBody ('\\' :: 'u' :: a :: b :: c :: d :: cs)
  | escape {e : Char} {cs : List Char} : (shortEscape? e).isSome = true → IsBody cs →
      IsBody ('\\' :: e :: cs)
  | char {c : Char} {cs : List Char} : c ≠ '"' → c ≠ '\\' → ¬c.toNat < 0x20 →
      IsBody cs →
      IsBody (c :: cs)

theorem isBody_of_stringBody? {cs : List Char} {p : Cut} (h : stringBody? cs = some p) :
    IsBody p.1 := by
  fun_induction stringBody? cs generalizing p with
  | case1 => simp at h
  | case2 cs =>
    obtain rfl := Option.some.inj h
    exact .nil
  | case3 a b c d cs hu ih =>
    obtain ⟨q, hq, rfl⟩ := Option.map_eq_some_iff.1 h
    exact .unit hu (ih hq)
  | case4 => simp at h
  | case5 e cs hu he ih =>
    obtain ⟨q, hq, rfl⟩ := Option.map_eq_some_iff.1 h
    exact .escape he (ih hq)
  | case6 => simp at h
  | case7 => simp at h
  | case8 c cs hquote hunit hescape hcontrol ih =>
    obtain ⟨q, hq, rfl⟩ := Option.map_eq_some_iff.1 h
    refine .char hquote ?_ hcontrol (ih hq)
    -- A backslash takes a character with it, so none is left to be plain.
    rintro rfl
    cases cs with
    | nil => simp [stringBody?] at hq
    | cons e cs => exact hescape e cs rfl rfl

theorem IsBody.read {body : List Char} (h : IsBody body) (r : List Char) :
    stringBody? (body ++ '"' :: r) = some (body, r) := by
  induction h with
  | nil => rfl
  | unit hu _ ih => simp [stringBody?, hu, ih]
  | @escape e cs he _ ih =>
    rw [List.cons_append, List.cons_append, stringBody?, if_pos he, ih]
    · rfl
    · -- The letter of a code unit is no short escape.
      rintro a b c d cs' rfl
      simp [shortEscape?] at he
  | char hquote hslash hcontrol _ ih =>
    rw [List.cons_append, stringBody?, if_neg hcontrol, ih]
    · rfl
    · exact hquote
    · exact fun _ _ _ _ _ h => absurd h hslash
    · exact fun _ _ h => absurd h hslash

namespace Token

/-- The lexeme of a number is one, and the body of a string. -/
def WellSpelled : Token → Prop
  | .number lexeme => number? lexeme = some (lexeme, [])
  | .string body => IsBody body
  | _ => True

theorem isNumeric_of_wellSpelled {lexeme : List Char} (h : WellSpelled (.number lexeme)) {c : Char}
    (hc : c ∈ lexeme) : isNumeric c = true :=
  isNumeric_of_number? h hc

theorem ne_nil_of_wellSpelled {lexeme : List Char}
    (h : WellSpelled (.number lexeme)) : lexeme ≠ [] :=
  (number?_eq h).2

end Token

theorem wellSpelled_of_token? {cs rest : List Char} {t : Token} (h : token? cs = some (t, rest)) :
    t.WellSpelled := by
  unfold token? at h
  split at h
  case h_10 cs =>
    obtain ⟨q, hq, hp⟩ := Option.map_eq_some_iff.1 h
    obtain ⟨rfl, rfl⟩ := Prod.mk.inj hp
    exact isBody_of_stringBody? hq
  case h_11 cs =>
    obtain ⟨q, hq, hp⟩ := Option.map_eq_some_iff.1 h
    obtain ⟨rfl, rfl⟩ := Prod.mk.inj hp
    simpa [Token.WellSpelled] using number?_append hq .nil
  all_goals
    obtain ⟨rfl, rfl⟩ := Prod.mk.inj (Option.some.inj h)
    trivial

theorem token?_of_isNumeric {c : Char} {cs : List Char} (h : isNumeric c = true) :
    token? (c :: cs) = (number? (c :: cs)).map fun p => (.number p.1, p.2) := by
  unfold token?
  split
  case h_11 => rfl
  all_goals
    next heq =>
      obtain ⟨rfl, -⟩ := List.cons.inj heq
      simp [isNumeric] at h

/-- A token is read back from its spelling. -/
theorem token?_text {t : Token} (h : t.WellSpelled) {r : List Char}
    (hr : ∀ lexeme, t = .number lexeme → Stops r) : token? (t.text ++ r) = some (t, r) := by
  cases t with
  | number lexeme =>
    have hread := number?_append h (hr lexeme rfl)
    obtain ⟨c, ds, rfl⟩ := List.exists_cons_of_ne_nil (Token.ne_nil_of_wellSpelled h)
    have hc := Token.isNumeric_of_wellSpelled h (c := c) List.mem_cons_self
    rw [Token.text, List.cons_append, token?_of_isNumeric hc]
    rw [List.cons_append] at hread
    rw [hread]
    rfl
  | string body =>
    have hread := IsBody.read h r
    rw [Token.text, List.cons_append, List.append_assoc, List.singleton_append, token?, hread]
    rfl
  | bool value => cases value <;> rfl
  | _ => rfl

namespace Token

def closes : Token → Bool
  | .closeObject | .closeArray => true
  | _ => false

/-- What may stand behind a token, or whether nothing may: a comma has a further element behind it,
and two numbers would run into one another. -/
def Admits : Token → Option Token → Prop
  | .comma, none => False
  | .comma, some next => next.closes = false
  | .number _, some (.number _) => False
  | _, _ => True

/-- A token does not begin with a gap. -/
theorem exists_cons_text {t : Token} (h : t.WellSpelled) :
    ∃ c cs, t.text = c :: cs ∧ isGap c = false := by
  cases t with
  | number lexeme =>
    obtain ⟨c, cs, rfl⟩ := List.exists_cons_of_ne_nil (ne_nil_of_wellSpelled h)
    refine ⟨c, cs, rfl, Bool.eq_false_iff.2 fun hgap => ?_⟩
    have hc := isNumeric_of_wellSpelled h (c := c) List.mem_cons_self
    simp only [isGap, Bool.or_eq_true, decide_eq_true_eq] at hgap
    rcases hgap with ((rfl | rfl) | rfl) | rfl <;> exact absurd hc (by decide)
  | bool value => cases value <;> exact ⟨_, _, rfl, rfl⟩
  | _ => exact ⟨_, _, rfl, rfl⟩

theorem stops_text {t : Token} (h : ∀ lexeme, t ≠ .number lexeme) (cs : List Char) :
    Stops (t.text ++ cs) := by
  cases t with
  | number lexeme => exact absurd rfl (h lexeme)
  | bool value => cases value <;> simp [Stops, text]
  | _ => simp [Stops, text]

end Token

/-- Each of the tokens may stand in front of the next. -/
def Orderly : List Token → Prop
  | [] => True
  | t :: ts => t.Admits ts.head? ∧ Orderly ts

/-- A text with these tokens, and nothing else but gaps. -/
inductive Spells : List Token → List Char → Prop where
  | last {gap : List Char} : (∀ c ∈ gap, isGap c = true) → Spells [] gap
  | token {gap : List Char} {t : Token} {ts : List Token} {cs : List Char} :
      (∀ c ∈ gap, isGap c = true) → Spells ts cs → Spells (t :: ts) (gap ++ (t.text ++ cs))

theorem Spells.gap_append {ts : List Token} {cs gap : List Char} (h : Spells ts cs)
    (hgap : ∀ c ∈ gap, isGap c = true) : Spells ts (gap ++ cs) := by
  cases h with
  | last hgap' => exact .last fun c hc => (List.mem_append.1 hc).elim (hgap c) (hgap' c)
  | token hgap' hts =>
    rw [← List.append_assoc]
    exact .token (fun c hc => (List.mem_append.1 hc).elim (hgap c) (hgap' c)) hts

theorem stops_gap_append {gap cs : List Char} (hgap : ∀ c ∈ gap, isGap c = true)
    (h : Stops cs) :
    Stops (gap ++ cs) := by
  cases gap with
  | nil => exact h
  | cons c gap =>
    intro d hd
    obtain rfl : c = d := by simpa using hd
    have hc := hgap c List.mem_cons_self
    simp only [isGap, Bool.or_eq_true, decide_eq_true_eq] at hc
    rcases hc with ((rfl | rfl) | rfl) | rfl <;> decide

/-- A number stops in front of anything but another number. -/
theorem Spells.stops {ts : List Token} {cs : List Char} (h : Spells ts cs)
    (hts : ∀ t ∈ ts.head?, ∀ lexeme, t ≠ .number lexeme) : Stops cs := by
  cases h with
  | last hgap =>
    have hstops := stops_gap_append hgap .nil
    rwa [List.append_nil] at hstops
  | token hgap _ => exact stops_gap_append hgap (Token.stops_text (hts _ rfl) _)

theorem tokens?_gap_append {gap : List Char} (hgap : ∀ c ∈ gap, isGap c = true)
    (cs : List Char) :
    tokens? (gap ++ cs) = tokens? cs := by
  induction gap with
  | nil => rfl
  | cons c gap ih =>
    rw [List.cons_append, tokens?, if_pos (hgap c List.mem_cons_self)]
    exact ih fun d hd => hgap d (List.mem_cons_of_mem c hd)

theorem tokens?_text_append {t : Token} (h : t.WellSpelled) {cs : List Char}
    (hread : token? (t.text ++ cs) = some (t, cs)) :
    tokens? (t.text ++ cs) = (tokens? cs).map (t :: ·) := by
  obtain ⟨c, ds, htext, hc⟩ := Token.exists_cons_text h
  rw [htext, List.cons_append] at hread ⊢
  rw [tokens?, if_neg (by simp [hc])]
  split
  next hnone =>
    rw [hread] at hnone
    cases hnone
  next t' rest hsome =>
    rw [hread] at hsome
    obtain ⟨rfl, rfl⟩ := Prod.mk.inj (Option.some.inj hsome)
    rfl

/-- No number stands right behind another one, into which it would run. -/
def Apart : List Token → Prop
  | [] => True
  | t :: ts => (∀ lexeme, t = .number lexeme → ∀ u ∈ ts.head?, ∀ lexeme',
    u ≠ .number lexeme') ∧ Apart ts

theorem apart_of_orderly {ts : List Token} (h : Orderly ts) : Apart ts := by
  induction ts with
  | nil => trivial
  | cons t ts ih =>
    refine ⟨?_, ih h.2⟩
    rintro lexeme rfl u hu lexeme' rfl
    have hadmits := h.1
    rw [hu] at hadmits
    exact hadmits

/-- The tokens of a text are those that it spells, if no two of them run into one another. -/
theorem tokens?_of_apart {ts : List Token} {cs : List Char} (h : Spells ts cs)
    (hwell : ∀ t ∈ ts, t.WellSpelled) (hapart : Apart ts) : tokens? cs = some ts := by
  induction h with
  | @last gap hgap =>
    have htokens := tokens?_gap_append hgap []
    rwa [List.append_nil, tokens?] at htokens
  | @token gap t ts cs hgap hts ih =>
    have ht := hwell t List.mem_cons_self
    have hread : token? (t.text ++ cs) = some (t, cs) :=
      -- Only a number could run on, and then only into another one.
      token?_text ht fun lexeme hlexeme => hts.stops (hapart.1 lexeme hlexeme)
    rw [tokens?_gap_append hgap, tokens?_text_append ht hread,
      ih (fun u hu => hwell u (List.mem_cons_of_mem t hu)) hapart.2]
    rfl

theorem tokens?_of_spells {ts : List Token} {cs : List Char} (h : Spells ts cs)
    (hwell : ∀ t ∈ ts, t.WellSpelled) (horder : Orderly ts) : tokens? cs = some ts :=
  tokens?_of_apart h hwell (apart_of_orderly horder)

/-- A text spells its tokens. -/
theorem spells_of_tokens? {cs : List Char} {ts : List Token} (h : tokens? cs = some ts) :
    Spells ts cs ∧ ∀ t ∈ ts, t.WellSpelled := by
  fun_induction tokens? cs generalizing ts with
  | case1 =>
    obtain rfl := Option.some.inj h
    exact ⟨.last (by simp), by simp⟩
  | case2 c cs hgap ih =>
    obtain ⟨hspells, hwell⟩ := ih h
    have hblank : ∀ d ∈ [c], isGap d = true := by simpa using hgap
    exact ⟨hspells.gap_append hblank, hwell⟩
  | case3 => simp at h
  | case4 c cs hgap t rest htoken ih =>
    obtain ⟨us, hus, rfl⟩ := Option.map_eq_some_iff.1 h
    obtain ⟨hspells, hwell⟩ := ih hus
    refine ⟨?_, ?_⟩
    · rw [← (token?_eq htoken).1, ← List.nil_append (t.text ++ rest)]
      exact .token (by simp) hspells
    · intro u hu
      rcases List.mem_cons.1 hu with rfl | hu
      · exact wellSpelled_of_token? htoken
      · exact hwell u hu

/-- Behind a gap the same tokens are spelled. -/
theorem Spells.of_gap_cons {ts : List Token} {c : Char} {cs : List Char} (h : Spells ts (c :: cs))
    (hwell : ∀ t ∈ ts, t.WellSpelled) (hc : isGap c = true) : Spells ts cs := by
  generalize htext : c :: cs = text at h
  cases h with
  | last hgap =>
    subst htext
    exact .last fun d hd => hgap d (List.mem_cons_of_mem c hd)
  | @token gap t ts past hgap hts =>
    cases gap with
    | nil =>
      obtain ⟨d, ds, hd, hdgap⟩ := Token.exists_cons_text (hwell t List.mem_cons_self)
      rw [List.nil_append, hd] at htext
      rw [(List.cons.inj htext).1, hdgap] at hc
      cases hc
    | cons d gap =>
      obtain ⟨rfl, rfl⟩ := List.cons.inj htext
      exact .token (fun e he => hgap e (List.mem_cons_of_mem c he)) hts

/-- What does not begin with a gap begins with a token. -/
theorem Spells.exists_token {ts : List Token} {c : Char} {cs : List Char} (h : Spells ts (c :: cs))
    (hc : isGap c = false) :
    ∃ t us past, ts = t :: us ∧ c :: cs = t.text ++ past ∧ Spells us past := by
  generalize htext : c :: cs = text at h
  have hfirst {gap past : List Char} (hgap : ∀ d ∈ gap, isGap d = true)
      (heq : c :: cs = gap ++ past) :
      gap = [] := by
    cases gap with
    | nil => rfl
    | cons d gap =>
      have hd := hgap d List.mem_cons_self
      rw [← (List.cons.inj heq).1, hc] at hd
      cases hd
  cases h with
  | last hgap =>
    subst htext
    rw [hgap c List.mem_cons_self] at hc
    cases hc
  | @token gap t us past hgap hus =>
    obtain rfl := hfirst hgap htext
    exact ⟨t, us, past, rfl, rfl, hus⟩

theorem Spells.eq_nil {ts : List Token} (h : Spells ts []) (hwell : ∀ t ∈ ts, t.WellSpelled) :
    ts = [] := by
  generalize htext : [] = text at h
  cases h with
  | last _ => rfl
  | token _ _ =>
    obtain ⟨d, ds, hd, -⟩ := Token.exists_cons_text (hwell _ List.mem_cons_self)
    simp [hd] at htext

section Order

variable {stack stack' : List Frame} {goal goal' : Goal} {ts : List Token} {document : Json}

theorem goal_of_comma (h : step? stack goal .comma = some (stack', goal')) :
    goal' = .value ∨ goal' = .key := by
  cases goal with
  | separator =>
    simp only [step?] at h
    split at h
    · exact .inl (Prod.mk.inj (Option.some.inj h)).2.symm
    · exact .inr (Prod.mk.inj (Option.some.inj h)).2.symm
    · simp at h
  | _ => simp [step?, beginValue?, beginKey?] at h

theorem goal_of_settle (stack : List Frame) (v : Json) :
    (settle stack v).2 = .separator ∨ (settle stack v).2 = .done v := by
  unfold settle
  split <;> simp

theorem goal_of_number {lexeme : List Char}
    (h : step? stack goal (.number lexeme) = some (stack', goal')) :
    goal' = .separator ∨ goal' = .done (.number lexeme) := by
  have hsettle := goal_of_settle stack (.number lexeme)
  cases goal with
  | value =>
    rwa [Option.some.inj h] at hsettle
  | firstItem =>
    rwa [Option.some.inj h] at hsettle
  | separator => simp [step?, close?] at h
  | _ => simp [step?, beginKey?] at h

/-- What has to come next rules out what may not stand behind a token. -/
theorem admits_of_step? {t : Token} (hstep : step? stack goal t = some (stack', goal'))
    (hread : read? stack' goal' ts = some document) : t.Admits ts.head? := by
  cases t with
  | comma =>
    cases ts with
    | nil =>
      rcases goal_of_comma hstep with rfl | rfl <;> simp [read?] at hread
    | cons u us =>
      rcases goal_of_comma hstep with rfl | rfl <;> cases u <;>
        simp_all [read?, step?, beginValue?, beginKey?, Token.Admits, Token.closes]
  | number lexeme =>
    cases ts with
    | nil => trivial
    | cons u us =>
      cases u with
      | number lexeme' =>
        rcases goal_of_number hstep with rfl | rfl <;> simp [read?, step?, close?] at hread
      | _ => trivial
  | _ => trivial

/-- The tokens of a document are in order. -/
theorem orderly_of_read? (h : read? stack goal ts = some document) : Orderly ts := by
  induction ts generalizing stack goal with
  | nil => trivial
  | cons t ts ih =>
    rw [read?] at h
    split at h
    · simp at h
    next stack' goal' hstep => exact ⟨admits_of_step? hstep h, ih h⟩

end Order

end SceneExpr.Json
