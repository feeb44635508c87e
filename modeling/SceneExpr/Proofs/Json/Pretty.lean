import SceneExpr.Proofs.Json.Printer

namespace SceneExpr.Json

theorem Spells.append {ts us : List Token} {cs ds : List Char} (h : Spells ts cs)
    (h' : Spells us ds) :
    Spells (ts ++ us) (cs ++ ds) := by
  induction h with
  | last hgap => exact h'.gap_append hgap
  | @token gap t ts cs hgap _ ih =>
    rw [List.append_assoc, List.append_assoc]
    exact .token hgap ih

theorem spells_text (t : Token) : Spells [t] t.text := by
  have hlast : Spells [] [] := .last (List.forall_mem_nil _)
  have htoken : Spells [t] ([] ++ (t.text ++ [])) := .token (List.forall_mem_nil _) hlast
  rwa [List.nil_append, List.append_nil] at htoken

theorem spells_newline (depth : Nat) : Spells [] (newline depth) := by
  refine .last fun c hc => ?_
  rcases List.mem_cons.1 hc with rfl | hc
  · rfl
  · obtain rfl := List.eq_of_mem_replicate hc
    rfl

/-- A key, the colon and the blank behind it. -/
theorem spells_key (k : List Char) :
    Spells [.string k, .colon] ((Token.string k).text ++ [':', ' ']) := by
  have hblank : Spells [] [' '] := .last (List.forall_mem_singleton.2 rfl)
  exact (spells_text (.string k)).append ((spells_text .colon).append hblank)

mutual

/-- The pretty form has the tokens of the value, at any depth. -/
theorem spells_prettyAt (depth : Nat) (v : Json) : Spells (tokens v) (prettyAt depth v) := by
  match v with
  | .null => exact spells_text .null
  | .bool b => exact spells_text (.bool b)
  | .number lexeme => exact spells_text (.number lexeme)
  | .string body => exact spells_text (.string body)
  | .array [] => exact (spells_text .openArray).append (spells_text .closeArray)
  | .array (v :: vs) =>
    have hitems := spells_prettyItems (depth + 1) (v :: vs)
    have hinner := (hitems.append (spells_newline depth)).append (spells_text .closeArray)
    rw [List.append_nil] at hinner
    rw [tokens, prettyAt]
    exact (spells_text .openArray).append hinner
  | .object [] => exact (spells_text .openObject).append (spells_text .closeObject)
  | .object (m :: ms) =>
    have hmembers := spells_prettyMembers (depth + 1) (m :: ms)
    have hinner := (hmembers.append (spells_newline depth)).append (spells_text .closeObject)
    rw [List.append_nil] at hinner
    rw [tokens, prettyAt]
    exact (spells_text .openObject).append hinner

theorem spells_prettyItems (depth : Nat) (vs : List Json) :
    Spells (itemTokens vs) (prettyItems depth vs) := by
  match vs with
  | [] => exact .last (List.forall_mem_nil _)
  | [v] => exact (spells_newline depth).append (spells_prettyAt depth v)
  | v :: w :: vs =>
    have hrest := (spells_text .comma).append (spells_prettyItems depth (w :: vs))
    rw [itemTokens, prettyItems]
    exact ((spells_newline depth).append (spells_prettyAt depth v)).append hrest

theorem spells_prettyMembers (depth : Nat) (ms : List (List Char × Json)) :
    Spells (memberTokens ms) (prettyMembers depth ms) := by
  match ms with
  | [] => exact .last (List.forall_mem_nil _)
  | [(k, v)] =>
    have hvalue := (spells_key k).append (spells_prettyAt depth v)
    rw [memberTokens, prettyMembers, List.append_assoc, List.append_assoc]
    rw [List.append_assoc] at hvalue
    exact (spells_newline depth).append hvalue
  | (k, v) :: m :: ms =>
    have hrest := (spells_text .comma).append (spells_prettyMembers depth (m :: ms))
    have hvalue := ((spells_key k).append (spells_prettyAt depth v)).append hrest
    rw [memberTokens, prettyMembers]
    simp only [List.append_assoc] at hvalue ⊢
    exact (spells_newline depth).append hvalue

end

/-- A document is read back from its pretty form, with anything blank behind it. -/
theorem parse?_pretty_append {v : Json} (h : v.WellSpelled) {gap : List Char}
    (hgap : ∀ c ∈ gap, isGap c = true) : parse? (v.pretty ++ gap) = some v := by
  have hspells := (spells_prettyAt 0 v).append (.last hgap)
  rw [List.append_nil] at hspells
  have htokens := tokens?_of_spells hspells h (orderly_tokens v)
  rw [parse?, pretty, htokens]
  exact ofTokens?_tokens v

theorem parse?_pretty {v : Json} (h : v.WellSpelled) : parse? v.pretty = some v := by
  have hparse := parse?_pretty_append h (List.forall_mem_nil _)
  rwa [List.append_nil] at hparse

theorem pretty_inj {v w : Json} (hv : v.WellSpelled) (hw : w.WellSpelled)
    (h : v.pretty = w.pretty) :
    v = w := by
  have hparse := parse?_pretty hv
  rw [h, parse?_pretty hw] at hparse
  exact (Option.some.inj hparse).symm

theorem zero_ne_head?_toDigits {n : Nat} (h : 0 < n) :
    ∀ c ∈ (Nat.toDigits 10 n).head?, c ≠ '0' := by
  induction n using Nat.strong_induction_on with
  | h n ih =>
    by_cases hsmall : n < 10
    · rw [Nat.toDigits_of_lt_base hsmall]
      rintro c hc
      obtain rfl := Option.some.inj hc
      interval_cases n <;> decide
    · have hne : Nat.toDigits 10 (n / 10) ≠ [] := Nat.toDigits_ne_nil
      rw [Nat.toDigits_of_base_le (by decide) (by omega), List.head?_append_of_ne_nil _ hne]
      exact ih (n / 10) (by omega) (by omega)

/-- A whole number is spelled as one. -/
theorem number?_toDigits (n : Nat) :
    number? (Nat.toDigits 10 n) = some (Nat.toDigits 10 n, []) := by
  have hdigit : ∀ c ∈ Nat.toDigits 10 n, c.isDigit = true := fun c hc =>
    Nat.isDigit_of_mem_toDigits (by decide) (by decide) hc
  have hhead : ∀ c ∈ (Nat.toDigits 10 n).head?, c ≠ '-' := by
    rintro c hc rfl
    exact absurd (hdigit _ (List.mem_of_mem_head? hc)) (by decide)
  have hdigits : digits? (Nat.toDigits 10 n) = some (Nat.toDigits 10 n, []) := by
    rw [digits?, List.takeWhile_eq_self_iff.2 hdigit, List.dropWhile_eq_nil_iff.2 hdigit]
    split
    next hnil => exact absurd hnil Nat.toDigits_ne_nil
    · rfl
  have hwhole : whole? (Nat.toDigits 10 n) = some (Nat.toDigits 10 n, []) := by
    rcases Nat.eq_zero_or_pos n with rfl | hn
    · rfl
    · rw [whole?_of_head (zero_ne_head?_toDigits hn), hdigits]
  rw [number?_of_head hhead, unsigned?, hwhole]
  simp [fraction?, exponent?]

theorem wellSpelled_ofNat (n : Nat) : WellSpelled (ofNat n) := by
  intro t ht
  obtain rfl := List.mem_singleton.1 ht
  exact number?_toDigits n

theorem escape_inj {cs ds : List Char} (h : escape cs = escape ds) : cs = ds := by
  have hread := unescape?_escape cs
  rw [h, unescape?_escape] at hread
  exact (Option.some.inj hread).symm

theorem ofText_inj {s t : String} (h : ofText s = ofText t) : s = t :=
  String.toList_inj.1 (escape_inj (Json.string.inj h))

theorem ofNat_inj {m n : Nat} (h : ofNat m = ofNat n) : m = n := by
  have hdigits := congrArg (Nat.ofDigitChars 10 · 0) (Json.number.inj h)
  simpa only [Nat.ofDigitChars_ten_toDigits] using hdigits

end SceneExpr.Json
