import Mathlib.Data.List.TakeWhile
import SceneExpr.CallSite.Mark
import SceneExpr.Proofs.Text.Rest

namespace SceneExpr

def octets (cs : List Char) : List UInt8 := cs.flatMap String.utf8EncodeChar

@[simp] theorem octets_nil : octets [] = [] := rfl

@[simp] theorem octets_cons (c : Char) (cs : List Char) :
    octets (c :: cs) = String.utf8EncodeChar c ++ octets cs := rfl

@[simp] theorem octets_append (cs ds : List Char) : octets (cs ++ ds) = octets cs ++ octets ds :=
  List.flatMap_append

@[simp] theorem length_octets (cs : List Char) : (octets cs).length = width cs := by
  induction cs with
  | nil => rfl
  | cons c cs ih =>
    rw [octets_cons, List.length_append, String.length_utf8EncodeChar, ih, width_cons]

theorem utf8EncodeChar_of_lt {c : Char} (h : c.toNat < 128) :
    String.utf8EncodeChar c = [UInt8.ofNat c.toNat] := by
  have hle : c.val.toNat ≤ 127 := Nat.le_of_lt_succ h
  simp only [String.utf8EncodeChar, hle, if_true]
  rfl

theorem octets_cons_of_lt {c : Char} (h : c.toNat < 128) (cs : List Char) :
    octets (c :: cs) = UInt8.ofNat c.toNat :: octets cs := by
  rw [octets_cons, utf8EncodeChar_of_lt h, List.singleton_append]

theorem utf8Size_of_lt {c : Char} (h : c.toNat < 128) : c.utf8Size = 1 := by
  rw [← String.length_utf8EncodeChar, utf8EncodeChar_of_lt h]
  rfl

theorem le_of_mem_utf8EncodeChar {c : Char} {b : UInt8} (h : 128 ≤ c.toNat)
    (hb : b ∈ String.utf8EncodeChar c) : 128 ≤ b.toNat := by
  have hgt : ¬c.val.toNat ≤ 127 := Nat.not_le.2 h
  simp only [String.utf8EncodeChar, hgt, if_false] at hb
  split at hb
  · simp only [List.mem_cons, List.not_mem_nil, or_false] at hb
    rcases hb with rfl | rfl <;> simp only [UInt8.toNat_ofNat'] <;> omega
  · split at hb
    · simp only [List.mem_cons, List.not_mem_nil, or_false] at hb
      rcases hb with rfl | rfl | rfl <;> simp only [UInt8.toNat_ofNat'] <;> omega
    · simp only [List.mem_cons, List.not_mem_nil, or_false] at hb
      rcases hb with rfl | rfl | rfl | rfl <;> simp only [UInt8.toNat_ofNat'] <;> omega

/-- No character starts with an octet that continues one. -/
theorem exists_utf8EncodeChar_eq_cons (c : Char) : ∃ b bs, String.utf8EncodeChar c = b :: bs ∧
    (b.toNat < 128 ∨ 192 ≤ b.toNat) := by
  simp only [String.utf8EncodeChar]
  split
  · refine ⟨_, _, rfl, .inl ?_⟩
    simp only [UInt8.toNat_ofNat']
    omega
  · split
    · refine ⟨_, _, rfl, .inr ?_⟩
      simp only [UInt8.toNat_ofNat']
      omega
    · split <;>
      · refine ⟨_, _, rfl, .inr ?_⟩
        simp only [UInt8.toNat_ofNat']
        omega

theorem utf8Size_of_cons {c : Char} {b : UInt8} {bs : List UInt8}
    (h : String.utf8EncodeChar c = b :: bs) : c.utf8Size = bs.length + 1 := by
  rw [← String.length_utf8EncodeChar, h, List.length_cons]

theorem le_of_mem_tail {c : Char} {b b' : UInt8} {bs : List UInt8}
    (h : String.utf8EncodeChar c = b :: bs) (hb : b' ∈ bs) : 128 ≤ b'.toNat := by
  by_cases hc : c.toNat < 128
  · rw [utf8EncodeChar_of_lt hc] at h
    obtain ⟨-, rfl⟩ := List.cons.inj h
    simp at hb
  · exact le_of_mem_utf8EncodeChar (Nat.not_lt.1 hc) (h ▸ List.mem_cons_of_mem b hb)

/-- What is asked of characters may be asked of octets: each octet of a character gives the answer
of the character. -/
def OctetWise (P : Char → Bool) : Prop :=
  ∀ c, ∀ b ∈ String.utf8EncodeChar c, P (Char.ofUInt8 b) = P c

theorem toNat_ofUInt8 (b : UInt8) : (Char.ofUInt8 b).toNat = b.toNat := UInt8.toNat_toUInt32 b

theorem ne_of_le {c d : Char} (hc : 128 ≤ c.toNat) (hd : d.toNat < 128) : c ≠ d := by
  rintro rfl
  omega

theorem ofUInt8_ofNat {c : Char} (h : c.toNat < 128) : Char.ofUInt8 (UInt8.ofNat c.toNat) = c := by
  apply Char.toNat_inj.1
  rw [toNat_ofUInt8, UInt8.toNat_ofNat']
  exact Nat.mod_eq_of_lt (Nat.lt_trans h (by decide))

theorem OctetWise.of_ascii {P : Char → Bool} (h : ∀ c, P c = true → c.toNat < 128) :
    OctetWise P := by
  intro c b hb
  by_cases hc : c.toNat < 128
  · rw [utf8EncodeChar_of_lt hc] at hb
    obtain rfl := List.mem_singleton.1 hb
    rw [ofUInt8_ofNat hc]
  · have hout (d : Char) (hd : 128 ≤ d.toNat) : P d = false := by
      rw [Bool.eq_false_iff]
      intro hP
      exact absurd (h d hP) (Nat.not_lt.2 hd)
    have hb := le_of_mem_utf8EncodeChar (Nat.not_lt.1 hc) hb
    rw [hout c (Nat.not_lt.1 hc), hout (Char.ofUInt8 b) (by rwa [toNat_ofUInt8])]

theorem OctetWise.not {P : Char → Bool} (h : OctetWise P) : OctetWise fun c => !P c :=
  fun c b hb => congrArg Bool.not (h c b hb)

theorem octetWise_eq {d : Char} (h : d.toNat < 128) : OctetWise fun c => c = d :=
  .of_ascii fun c hc => by rwa [of_decide_eq_true hc]

theorem lt_of_isAsciiBlank {c : Char} (h : isAsciiBlank c = true) : c.toNat < 128 := by
  simp only [isAsciiBlank, Bool.or_eq_true, decide_eq_true_eq] at h
  rcases h with (((rfl | rfl) | rfl) | rfl) | rfl <;> decide

theorem lt_of_isSeparator {c : Char} (h : isSeparator c = true) : c.toNat < 128 := by
  have hall : separators.all (fun d => d.toNat < 128) = true := by decide
  rcases Bool.or_eq_true_iff.1 h with hblank | hmem
  · exact lt_of_isAsciiBlank hblank
  · simpa using List.all_eq_true.1 hall c (List.contains_iff_mem.1 hmem)

def firstOctet? (P : Char → Bool) (bs : List UInt8) : Option Nat :=
  bs.findIdx? fun b => P (Char.ofUInt8 b)

def lastOctet? (P : Char → Bool) (bs : List UInt8) : Option Nat :=
  (firstOctet? P bs.reverse).map fun i => bs.length - 1 - i

namespace OctetWise

variable {P : Char → Bool}

theorem firstOctet?_of_all (hP : OctetWise P) {cs : List Char} (h : ∀ c ∈ cs, P c = false) :
    firstOctet? P (octets cs) = none := by
  rw [firstOctet?, List.findIdx?_eq_none_iff]
  intro b hb
  obtain ⟨c, hc, hb⟩ := List.mem_flatMap.1 hb
  rw [hP c b hb, h c hc]

/-- The first octet that passes belongs to the first character that passes. -/
theorem firstOctet?_append_cons (hP : OctetWise P) {cs : List Char} (h : ∀ c ∈ cs, P c = false)
    {c : Char} (hc : P c = true) (ds : List Char) :
    firstOctet? P (octets (cs ++ c :: ds)) = some (width cs) := by
  obtain ⟨b, bs, hb, -⟩ := exists_utf8EncodeChar_eq_cons c
  have hfront := hP.firstOctet?_of_all h
  have hpasses : P (Char.ofUInt8 b) = true := by rw [hP c b (hb ▸ List.mem_cons_self), hc]
  rw [firstOctet?] at hfront
  rw [octets_append, octets_cons, hb, firstOctet?, List.findIdx?_append, hfront, List.cons_append,
    List.findIdx?_cons, hpasses, Option.none_or, if_pos rfl, Option.map_some, length_octets,
    Nat.zero_add]

/-- A text is cut at the first character that passes a test, or none passes. -/
theorem cases_firstOctet? (hP : OctetWise P) (cs : List Char) :
    (firstOctet? P (octets cs) = none ∧ ∀ c ∈ cs, P c = false) ∨
    ∃ front c back, cs = front ++ c :: back ∧ (∀ c ∈ front, P c = false) ∧ P c = true ∧
      firstOctet? P (octets cs) = some (width front) := by
  induction cs with
  | nil => exact .inl ⟨rfl, by simp⟩
  | cons c cs ih =>
    cases hc : P c with
    | true =>
      have hfirst := hP.firstOctet?_append_cons (List.forall_mem_nil _) hc cs
      exact .inr ⟨[], c, cs, rfl, List.forall_mem_nil _, hc, hfirst⟩
    | false =>
      rcases ih with ⟨-, hnone⟩ | ⟨front, d, back, rfl, hfront, hd, -⟩
      · have hall : ∀ d ∈ c :: cs, P d = false := by
          intro d hd
          rcases List.mem_cons.1 hd with rfl | hd
          · exact hc
          · exact hnone d hd
        exact .inl ⟨hP.firstOctet?_of_all hall, hall⟩
      · have hall : ∀ d ∈ c :: front, P d = false := by
          intro d hd
          rcases List.mem_cons.1 hd with rfl | hd
          · exact hc
          · exact hfront d hd
        exact .inr ⟨c :: front, d, back, rfl, hall, hd, hP.firstOctet?_append_cons hall hd back⟩

/-- If none passes, the text in front of the first is the whole text. -/
theorem firstOctet?_octets (hP : OctetWise P) (cs : List Char) :
    (firstOctet? P (octets cs)).getD (width cs) = width (cs.takeWhile fun c => !P c) := by
  rcases hP.cases_firstOctet? cs
    with ⟨hnone, hall⟩ | ⟨front, c, back, rfl, hfront, hc, hsome⟩
  · rw [hnone, Option.getD_none, List.takeWhile_eq_self_iff.2 fun c hc => by simp [hall c hc]]
  · rw [hsome, Option.getD_some, List.takeWhile_append_of_pos fun c hc => by simp [hfront c hc],
      List.takeWhile_cons_of_neg (by simp [hc]), List.append_nil]

theorem lastOctet?_of_all (hP : OctetWise P) {cs : List Char} (h : ∀ c ∈ cs, P c = false) :
    lastOctet? P (octets cs) = none := by
  rw [lastOctet?, Option.map_eq_none_iff, firstOctet?, List.findIdx?_eq_none_iff]
  intro b hb
  obtain ⟨c, hc, hb⟩ := List.mem_flatMap.1 (List.mem_reverse.1 hb)
  rw [hP c b hb, h c hc]

/-- Behind the last octet that passes stands the text behind the last character that passes, if that
is one of ASCII. -/
theorem lastOctet?_append_cons (hP : OctetWise P) {c : Char} (hc : P c = true)
    (hascii : c.toNat < 128) {ds : List Char} (h : ∀ c ∈ ds, P c = false) (cs : List Char) :
    lastOctet? P (octets (cs ++ c :: ds)) = some (width cs) := by
  have hback := hP.lastOctet?_of_all h
  rw [lastOctet?, Option.map_eq_none_iff, firstOctet?] at hback
  have hpasses : P (Char.ofUInt8 (UInt8.ofNat c.toNat)) = true := by rw [ofUInt8_ofNat hascii, hc]
  have hlength : (octets (cs ++ c :: ds)).length = width cs + 1 + width ds := by
    rw [length_octets, width_append, width_cons, utf8Size_of_lt hascii, Nat.add_assoc]
  rw [lastOctet?, hlength, octets_append, octets_cons, utf8EncodeChar_of_lt hascii,
    List.reverse_append,
    List.reverse_append, firstOctet?, List.append_assoc, List.findIdx?_append, hback,
    Option.none_or, List.reverse_singleton, List.singleton_append, List.findIdx?_cons, hpasses]
  simp only [if_pos, Option.map_some, List.length_reverse, length_octets]
  congr 1
  omega

end OctetWise

end SceneExpr
