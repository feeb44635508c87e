import Mathlib
import SceneExpr.Proofs.Grammar.Whole
import SceneExpr.Proofs.Octets.Text
import SceneExpr.Proofs.Tree.Levels

namespace SceneExpr

namespace Literal

/-- The number of backslashes at the end of a text, if `n` more stand in front of it. -/
def backslashes (n : Nat) (cs : List Char) : Nat :=
  cs.foldl (fun n c => if c = '\\' then n + 1 else 0) n

/-- What may stand between two quotes: each quote in it is escaped, and the one behind it is not. An
odd number of backslashes escapes a quote, as each pair of them stands for itself. -/
structure IsRaw (raw : List Char) : Prop where
  odd_of_quote : ∀ front back, raw = front ++ '"' :: back → Odd (backslashes 0 front)
  even : Even (backslashes 0 raw)

/-- The same read from the front: each backslash takes the next character with it, and no other
quote is met. -/
inductive Paired : List Char → Prop where
  | nil : Paired []
  | escape (c : Char) {cs : List Char} : Paired cs → Paired ('\\' :: c :: cs)
  | plain {c : Char} {cs : List Char} : c ≠ '"' → c ≠ '\\' → Paired cs → Paired (c :: cs)

/-- Copies each backslash with the character that it takes, and escapes the other quotes. -/
def escape : List Char → List Char
  | [] => []
  | '\\' :: c :: cs => '\\' :: c :: escape cs
  | '"' :: cs => '\\' :: '"' :: escape cs
  | c :: cs => c :: escape cs

def quoted (cs : List Char) : List Char :=
  '"' :: cs.flatMap (fun c => if c = '"' then ['\\', '"'] else [c]) ++ ['"']

/-- The value of a literal, for which the text is gone through only if a quote is escaped in it. -/
def value (raw : List Char) : List Char := if ['\\', '"'] <:+: raw then unescape raw else raw

section Parity

theorem backslashes_slash (n : Nat) (cs : List Char) :
    backslashes n ('\\' :: cs) = backslashes (n + 1) cs := rfl

theorem backslashes_plain {c : Char} (h : c ≠ '\\') (n : Nat) (cs : List Char) :
    backslashes n (c :: cs) = backslashes 0 cs := by
  rw [backslashes, List.foldl_cons, if_neg h]
  rfl

/-- A pair in front does not make an odd number even. -/
theorem even_backslashes_iff (n : Nat) (cs : List Char) :
    Even (backslashes (n + 2) cs) ↔ Even (backslashes n cs) := by
  induction cs generalizing n with
  | nil => simp [backslashes, Nat.even_add]
  | cons c cs ih =>
    by_cases hc : c = '\\'
    · subst hc
      rw [backslashes_slash, backslashes_slash]
      exact ih (n + 1)
    · rw [backslashes_plain hc, backslashes_plain hc]

theorem even_backslashes_escape (c : Char) (cs : List Char) :
    Even (backslashes 0 ('\\' :: c :: cs)) ↔ Even (backslashes 0 cs) := by
  by_cases hc : c = '\\'
  · subst hc
    rw [backslashes_slash, backslashes_slash]
    exact even_backslashes_iff 0 cs
  · rw [backslashes_slash, backslashes_plain hc]

end Parity

namespace Paired

variable {raw : List Char}

theorem even (h : Paired raw) : Even (backslashes 0 raw) := by
  induction h with
  | nil => exact Even.zero
  | escape c _ ih => exact (even_backslashes_escape c _).2 ih
  | plain _ hslash _ ih => rwa [backslashes_plain hslash]

theorem odd_of_quote (h : Paired raw) {front back : List Char} (hraw : raw = front ++ '"' :: back) :
    Odd (backslashes 0 front) := by
  induction h generalizing front with
  | nil => simp at hraw
  | escape c _ ih =>
    match front with
    | [] => simp at hraw
    | [d] =>
      obtain ⟨rfl, -⟩ := List.cons.inj hraw
      exact odd_one
    | d :: e :: front =>
      obtain ⟨hd, htail⟩ := List.cons.inj hraw
      obtain ⟨-, hback⟩ := List.cons.inj htail
      rw [← hd, ← Nat.not_even_iff_odd, even_backslashes_escape, Nat.not_even_iff_odd]
      exact ih hback
  | plain hquote hslash _ ih =>
    match front with
    | [] => exact absurd (List.cons.inj hraw).1 hquote
    | d :: front =>
      obtain ⟨hd, hback⟩ := List.cons.inj hraw
      rw [← hd, backslashes_plain hslash]
      exact ih hback

theorem isRaw (h : Paired raw) : IsRaw raw := ⟨fun _ _ => h.odd_of_quote, h.even⟩

/-- The quote behind the text is the first one that is not taken by a backslash. -/
theorem cut?_eq (h : Paired raw) (past : List Char) :
    cut? (raw ++ '"' :: past) = some (raw, past) := by
  induction h with
  | nil => rfl
  | escape c _ ih =>
    rw [List.cons_append, List.cons_append, cut?, ih]
    rfl
  | plain hquote hslash _ ih =>
    rw [List.cons_append, cut?, ih]
    · rfl
    · exact hquote
    · exact fun _ _ hc => absurd hc hslash

theorem of_cut? {cs past : List Char} (h : cut? cs = some (raw, past)) : Paired raw := by
  fun_induction cut? cs generalizing raw past with
  | case1 => simp at h
  | case2 cs =>
    obtain ⟨rfl, -⟩ := Prod.mk.inj (Option.some.inj h)
    exact .nil
  | case3 c cs ih =>
    obtain ⟨q, hq, he⟩ := Option.map_eq_some_iff.1 h
    obtain ⟨rfl, -⟩ := Prod.mk.inj he
    exact .escape c (ih hq)
  | case4 c cs hquote hescape ih =>
    obtain ⟨q, hq, he⟩ := Option.map_eq_some_iff.1 h
    obtain ⟨rfl, -⟩ := Prod.mk.inj he
    refine .plain hquote ?_ (ih hq)
    rintro rfl
    -- A backslash that takes nothing is the last character, and no quote is behind it.
    cases cs with
    | nil => simp [cut?] at hq
    | cons d cs => exact hescape d cs rfl rfl

theorem escape_unescape (h : Paired raw) : Literal.escape (unescape raw) = raw := by
  induction h with
  | nil => rfl
  | escape c _ ih =>
    by_cases hc : c = '"'
    · subst hc
      rw [unescape, Literal.escape, ih]
    · rw [unescape, Literal.escape, ih]
      exact hc
  | plain hquote hslash _ ih =>
    rw [unescape, Literal.escape, ih]
    · exact fun _ _ hc => absurd hc hslash
    · exact hquote
    · exact fun _ hc => absurd hc hslash
    · exact fun _ _ hc => absurd hc hslash

end Paired

namespace IsRaw

theorem tail_escape {c : Char} {cs : List Char} (h : IsRaw ('\\' :: c :: cs)) : IsRaw cs := by
  refine ⟨fun front back hcs => ?_, (even_backslashes_escape c cs).1 h.even⟩
  have hodd := h.odd_of_quote ('\\' :: c :: front) back (by rw [hcs]; rfl)
  rwa [← Nat.not_even_iff_odd, even_backslashes_escape, Nat.not_even_iff_odd] at hodd

theorem tail_plain {c : Char} {cs : List Char} (hslash : c ≠ '\\') (h : IsRaw (c :: cs)) :
    IsRaw cs := by
  refine ⟨fun front back hcs => ?_, ?_⟩
  · have hodd := h.odd_of_quote (c :: front) back (by rw [hcs]; rfl)
    rwa [backslashes_plain hslash] at hodd
  · have heven := h.even
    rwa [backslashes_plain hslash] at heven

theorem paired {raw : List Char} (h : IsRaw raw) : Paired raw := by
  match raw with
  | [] => exact .nil
  | c :: cs =>
    by_cases hslash : c = '\\'
    · subst hslash
      match cs with
      | [] => exact absurd h.even (by decide)
      | d :: cs => exact .escape d h.tail_escape.paired
    · refine .plain ?_ hslash (h.tail_plain hslash).paired
      rintro rfl
      exact absurd (h.odd_of_quote [] cs rfl) (by decide)

/-- Texts that may stand between quotes have different values. -/
theorem unescape_inj {raw raw' : List Char} (h : IsRaw raw) (h' : IsRaw raw')
    (heq : unescape raw = unescape raw') : raw = raw' := by
  rw [← h.paired.escape_unescape, heq, h'.paired.escape_unescape]

end IsRaw

section Quoted

variable {cs : List Char}

theorem paired_flatMap (h : '\\' ∉ cs) :
    Paired (cs.flatMap fun c => if c = '"' then ['\\', '"'] else [c]) := by
  induction cs with
  | nil => exact .nil
  | cons c cs ih =>
    rw [List.mem_cons, not_or] at h
    rw [List.flatMap_cons]
    split
    · exact .escape '"' (ih h.2)
    next hquote => exact .plain hquote (Ne.symm h.1) (ih h.2)

theorem unescape_flatMap (h : '\\' ∉ cs) :
    unescape (cs.flatMap fun c => if c = '"' then ['\\', '"'] else [c]) = cs := by
  induction cs with
  | nil => rfl
  | cons c cs ih =>
    rw [List.mem_cons, not_or] at h
    rw [List.flatMap_cons]
    split
    next hquote =>
      subst hquote
      exact congrArg _ (ih h.2)
    next hquote =>
      rw [List.singleton_append, unescape, ih h.2]
      · exact fun _ hc => absurd hc.symm h.1
      · exact fun _ _ hc => absurd hc.symm h.1

end Quoted

/-- A text in which no quote is escaped is its own value. -/
theorem unescape_eq_self {raw : List Char} (h : ¬ ['\\', '"'] <:+: raw) : unescape raw = raw := by
  fun_induction unescape raw with
  | case1 => rfl
  | case2 cs => exact absurd ⟨[], cs, rfl⟩ h
  | case3 c cs _ ih =>
    rw [ih fun hcs => h (hcs.trans (List.suffix_append ['\\', c] cs).isInfix)]
  | case4 c cs _ _ ih => rw [ih fun hcs => h (hcs.trans (List.suffix_cons c cs).isInfix)]

theorem value_eq (raw : List Char) : value raw = unescape raw := by
  unfold value
  split
  · rfl
  next h => exact (unescape_eq_self h).symm

end Literal

namespace Octets

/-- From an octet of a text on there is the rest of the character that it belongs to, and the text
behind it. -/
theorem exists_drop_octets {text : List Char} {n : Nat} (h : n ≤ width text) :
    ∃ tail rest, (octets text).drop n = tail ++ octets rest ∧
      (∀ b ∈ tail, 128 ≤ b.toNat) ∧
      RestAt text (n + tail.length) rest := by
  induction text generalizing n with
  | nil =>
    obtain rfl : n = 0 := Nat.le_zero.1 h
    exact ⟨[], [], rfl, by simp, .whole []⟩
  | cons c cs ih =>
    by_cases hzero : n = 0
    · subst hzero
      exact ⟨[], c :: cs, rfl, by simp, .whole _⟩
    · have hlength : (String.utf8EncodeChar c).length = c.utf8Size :=
        String.length_utf8EncodeChar c
      by_cases hinside : n ≤ c.utf8Size
      · obtain ⟨b, bs, hb, -⟩ := exists_utf8EncodeChar_eq_cons c
        obtain ⟨m, rfl⟩ := Nat.exists_eq_succ_of_ne_zero hzero
        refine ⟨(String.utf8EncodeChar c).drop (m + 1), cs, ?_, fun b' hb' => ?_, ?_⟩
        · rw [octets_cons, List.drop_append_of_le_length (by omega)]
        · rw [hb, List.drop_succ_cons] at hb'
          exact le_of_mem_tail hb (List.mem_of_mem_drop hb')
        · have hstop : m + 1 + ((String.utf8EncodeChar c).drop (m + 1)).length =
              0 + c.utf8Size := by
            rw [List.length_drop]
            omega
          rw [hstop]
          exact (RestAt.whole (c :: cs)).advance_cons
      · rw [width_cons] at h
        obtain ⟨tail, rest, hdrop, htail, front, rfl, hfront⟩ :=
          ih (n := n - c.utf8Size) (by omega)
        refine ⟨tail, rest, ?_, htail, c :: front, rfl, ?_⟩
        · rw [octets_cons, List.drop_append, hlength, hdrop, List.drop_of_length_le (by omega),
            List.nil_append]
        · rw [width_cons, hfront]
          omega

/-- A literal that is found from an offset on stands at a quote, and is found from there as well. -/
theorem exists_restAt_of_scanLiteral {text : List Char} {start : Nat} {l : Span × List Char}
    (h : scanLiteral text start = .ok (some l)) : ∃ opened after, start ≤ opened ∧
      RestAt text opened ('"' :: after) ∧ scanLiteral text opened = .ok (some l) := by
  have hquote : unescapedQuote? start ((octets text).drop start) ≠ none := by
    intro hnone
    rw [scanLiteral, hnone] at h
    cases h
  by_cases hle : start ≤ width text
  · obtain ⟨tail, rest, hdrop, htail, hrest⟩ := exists_drop_octets hle
    have hskip : unescapedQuote? start ((octets text).drop start) =
        (Literal.cut? rest).map fun p => start + tail.length + width p.1 := by
      rw [hdrop, unescapedQuote?_skip htail, unescapedQuote?_eq]
    cases hcut : Literal.cut? rest with
    | none => simp [hskip, hcut] at hquote
    | some q =>
      obtain ⟨front, after⟩ := q
      rw [← Literal.cut?_eq hcut] at hrest
      have hopened := hrest.advance
      refine ⟨start + tail.length + width front, after, by omega, hopened, ?_⟩
      have hsame : scanLiteral text (start + tail.length + width front) =
          scanLiteral text start := by
        rw [scanLiteral, drop_octets hopened, unescapedQuote?_eq, scanLiteral, hskip, hcut]
        rfl
      rw [hsame, h]
  · rw [List.drop_of_length_le (by rw [length_octets]; omega)] at hquote
    exact absurd rfl hquote

end Octets

namespace Literal

theorem exists_of_scanLiteral {text raw : List Char} {start : Nat} {s : Span}
    (h : Octets.scanLiteral text start = .ok (some (s, raw))) : ∃ front past,
      text = front ++ '"' :: (raw ++ '"' :: past) ∧ start ≤ width front ∧
      s = ⟨width front, width front + width raw + 2⟩ ∧
      cut? (raw ++ '"' :: past) = some (raw, past) := by
  obtain ⟨opened, after, hle, hrest, hsame⟩ := Octets.exists_restAt_of_scanLiteral h
  rw [Octets.scanLiteral_eq hrest] at hsame
  cases hcut : cut? after with
  | none => simp [hcut] at hsame
  | some q =>
    obtain ⟨raw', past⟩ := q
    simp only [hcut, Octets.Outcome.ok.injEq, Option.some.injEq, Prod.mk.injEq] at hsame
    obtain ⟨rfl, rfl⟩ := hsame
    obtain ⟨front, htext, rfl⟩ := hrest
    rw [← cut?_eq hcut] at htext hcut
    exact ⟨front, past, htext, hle, rfl, hcut⟩

theorem scan_quoted (p : Parser) {s : String} (h : '\\' ∉ s.toList) :
    p.scan .text (String.ofList (quoted s.toList)) =
      ⟨[.literal s ⟨0, width (quoted s.toList)⟩], none⟩ := by
  have hscan := Grammar.Text.scan_of_literal (p := p) ((paired_flatMap h).cut?_eq [])
  have hquote : Char.utf8Size '"' = 1 := rfl
  have hwidth : width (quoted s.toList) =
      width (s.toList.flatMap fun c => if c = '"' then ['\\', '"'] else [c]) + 2 := by
    simp only [quoted, width_append, width_cons, width_nil, hquote]
    omega
  rw [unescape_flatMap h, String.ofList_toList, ← hwidth] at hscan
  rw [Parser.scan, String.toList_ofList]
  exact hscan

theorem build_quoted (p : Parser) {s : String} (h : '\\' ∉ s.toList) :
    p.build .text (String.ofList (quoted s.toList)) =
      .ok (.node .text [.literal s ⟨0, width (quoted s.toList)⟩]) := by
  rw [Parser.build_eq_enter]
  refine Parser.buildWith_eq_ok_iff.2 ⟨_, rfl, ?_, ?_⟩
  · rw [scan_quoted p h]
  · rw [scan_quoted p h]
    exact .cons rfl .nil

/-- What is found between two quotes is closed by the first quote that no backslash takes. It can be
told from the value, texts without backslashes are values, and the value is the same if it is taken
over as written where no quote is escaped. -/
theorem lossless (p : Parser) :
    (∀ text start s raw, Octets.scanLiteral text start = .ok (some (s, raw)) → ∃ front past,
      text = front ++ '"' :: (raw ++ '"' :: past) ∧ start ≤ width front ∧
      s = ⟨width front, width front + width raw + 2⟩ ∧
      cut? (raw ++ '"' :: past) = some (raw, past) ∧
      IsRaw raw ∧ Paired raw) ∧
    (∀ raw, IsRaw raw → escape (unescape raw) = raw) ∧
    (∀ raw raw', IsRaw raw → IsRaw raw' → unescape raw = unescape raw' → raw = raw') ∧
    (∀ s : String, '\\' ∉ s.toList →
      p.scan .text (String.ofList (quoted s.toList)) =
        ⟨[.literal s ⟨0, width (quoted s.toList)⟩], none⟩ ∧
      p.build .text (String.ofList (quoted s.toList)) =
        .ok (.node .text [.literal s ⟨0, width (quoted s.toList)⟩])) ∧
    ∀ raw, value raw = unescape raw := by
  refine ⟨fun text start s raw h => ?_, fun raw h => h.paired.escape_unescape,
    fun raw raw' h h' => h.unescape_inj h', fun s h =>
    ⟨scan_quoted p h, build_quoted p h⟩, value_eq⟩
  obtain ⟨front, past, htext, hle, hs, hcut⟩ := exists_of_scanLiteral h
  have hpaired := Paired.of_cut? hcut
  exact ⟨front, past, htext, hle, hs, hcut, hpaired.isRaw, hpaired⟩

/-- Read from inside a character on, a literal with an escaped quote and with escaped backslashes at
its end. -/
theorem lossless_from_inside :
    let p : Parser := ⟨.indexed "1.0" [], .empty, {}⟩
    let raw := "a\\\"ü\\\\".toList
    let text := "é\"a\\\"ü\\\\\" b".toList
    (Octets.scanLiteral text 1 = .ok (some (⟨2, 11⟩, raw)) ∧ IsRaw raw) ∧
    escape (unescape raw) = raw ∧
    (∀ raw', IsRaw raw' → unescape raw = unescape raw' → raw = raw') ∧
    ('\\' ∉ "é\"".toList ∧
      p.build .text "\"é\\\"\"" = .ok (.node .text [.literal "é\"" ⟨0, 6⟩])) ∧
    value raw = unescape raw := by
  intro p raw text
  have hopen : Octets.unescapedQuote? 1 ((octets text).drop 1) = some 2 := by decide +kernel
  have hclose : Octets.unescapedQuote? 3 ((octets text).drop 3) = some 10 := by decide +kernel
  have hpart : Octets.part text 3 10 = .ok raw := by
    simp only [text, raw]
    cbv
  have hscan : Octets.scanLiteral text 1 = .ok (some (⟨2, 11⟩, raw)) := by
    rw [Octets.scanLiteral, hopen]
    dsimp only
    rw [hclose]
    dsimp only
    rw [hpart]
    rfl
  have hslash : '\\' ∉ "é\"".toList := by decide
  obtain ⟨hfound, hback, hinj, hquoted, hvalue⟩ := lossless p
  obtain ⟨-, -, -, -, -, -, hraw, -⟩ := hfound text 1 _ raw hscan
  exact ⟨⟨hscan, hraw⟩, hback raw hraw, fun raw' => hinj raw raw' hraw,
    ⟨hslash, (hquoted "é\"" hslash).2⟩, hvalue raw⟩

end Literal

end SceneExpr
