import Mathlib
import SceneExpr.Proofs.Octets.Rendering

namespace SceneExpr

namespace Octets

namespace Rendering

/-- Turn by turn the first rendering comes to the second, and there it ends. -/
def Ends (ctx : Context) (r last : Rendering) : Prop :=
  Relation.ReflTransGen (fun r r' => r.turn ctx = .ok (some r')) r last ∧ last.turn ctx = .ok none

/-- A rendering ends where it is run to. -/
theorem ends_of_run {ctx : Context} {fuel : Nat} {r last : Rendering}
    (h : r.run ctx fuel = .ok last) : r.Ends ctx last := by
  induction fuel generalizing r with
  | zero => cases h
  | succ fuel ih =>
    cases hturn : r.turn ctx with
    | panic p =>
      rw [run, hturn] at h
      cases h
    | error e =>
      rw [run, hturn] at h
      cases h
    | ok next =>
      cases next with
      | none =>
        rw [run_of_end hturn] at h
        obtain rfl := Outcome.ok.inj h
        exact ⟨.refl, hturn⟩
      | some next =>
        rw [run_of_turn hturn] at h
        exact ⟨.head hturn (ih h).1, (ih h).2⟩

/-- A rendering ends at one place only. -/
theorem Ends.unique {ctx : Context} {r last last' : Rendering} (h : Ends ctx r last)
    (h' : Ends ctx r last') :
    last = last' := by
  obtain ⟨hreaches, hend⟩ := h
  induction hreaches using Relation.ReflTransGen.head_induction_on with
  | refl =>
    rcases h'.1.cases_head with rfl | ⟨next, hnext, -⟩
    · rfl
    · rw [hend] at hnext
      cases hnext
  | head hturn _ ih =>
    rcases h'.1.cases_head with rfl | ⟨next, hnext, hreaches'⟩
    · rw [h'.2] at hturn
      cases hturn
    · rw [hturn] at hnext
      obtain rfl := Option.some.inj (Outcome.ok.inj hnext)
      exact ih ⟨hreaches', h'.2⟩

end Rendering

/-- The names between braces; `found` holds those in front of `rest`. -/
def placeholdersFrom :
    (fuel : Nat) → (found : Finset String) → (rest : List Char) → Outcome (Finset String)
  | 0, _, _ => .panic .endless
  | fuel + 1, found, rest =>
    match firstOctet? (· = '{') (octets rest) with
    | none => .ok found
    | some opened => do
      let after ← part rest (opened + 1) (octets rest).length
      match firstOctet? (· = '}') (octets after) with
      | none => .ok found
      | some length => do
        let key ← part rest (opened + 1) (opened + 1 + length)
        let past ← part rest (opened + length + 2) (octets rest).length
        let name := String.ofList (trim key)
        placeholdersFrom fuel (if name = "" then found else insert name found) past

def placeholders (template : String) : Outcome (Finset String) :=
  placeholdersFrom (template.length + 1) ∅ template.toList

/-- Whether the names that a template mentions are all among the declared keys. -/
def declares (declared : Finset String) (template : String) : Outcome Bool := do
  let found ← placeholders template
  return decide (found ⊆ declared)

section Names

variable {cs : List Char}

/-- The names that are collected are the keys of the placeholders but for the empty one. -/
theorem exists_placeholdersFrom {fuel : Nat} (hfuel : cs.length < fuel) (found : Finset String) :
    ∃ names, placeholdersFrom fuel found cs = .ok names ∧
      ∀ name, name ∈ names ↔
        name ∈ found ∨ name ≠ "" ∧ name ∈ Template.keys cs := by
  induction cs using Template.brace_induction generalizing fuel found with
  | plain cs h =>
    obtain ⟨fuel, rfl⟩ := Nat.exists_eq_add_one.2 (Nat.zero_lt_of_lt hfuel)
    refine ⟨found, ?_, fun name => by simp [Template.keys_plain h]⟩
    rw [placeholdersFrom, firstOctet?_of_notMem (by decide) h]
  | unclosed front after hfront hafter =>
    obtain ⟨fuel, rfl⟩ := Nat.exists_eq_add_one.2 (Nat.zero_lt_of_lt hfuel)
    obtain ⟨-, -, hbehind⟩ := parts_append_cons (d := '{') (by decide) front after
    refine ⟨found, ?_, fun name => by
      simp [Template.keys_append hfront, Template.keys_unclosed hafter]⟩
    rw [placeholdersFrom, firstOctet?_of_notMem_append (by decide) hfront]
    simp only [hbehind, Outcome.ok_bind, firstOctet?_of_notMem (by decide) hafter]
  | placeholder front key past hfront hkey ih =>
    obtain ⟨fuel, rfl⟩ := Nat.exists_eq_add_one.2 (Nat.zero_lt_of_lt hfuel)
    have hshort : past.length < fuel := by
      simp only [List.length_append, List.length_cons] at hfuel
      omega
    obtain ⟨-, -, hbehind⟩ :=
      parts_append_cons (d := '{') (by decide) front (key ++ '}' :: past)
    have hat := (RestAt.whole (front ++ '{' :: (key ++ '}' :: past))).advance.advance_cons
    have hbraces : Char.utf8Size '{' = 1 ∧ Char.utf8Size '}' = 1 := ⟨rfl, rfl⟩
    rw [Nat.zero_add, hbraces.1] at hat
    have hname := part_of_restAt hat
    have hpast := part_to_end hat.advance.advance_cons
    have hstop : width front + 1 + width key + Char.utf8Size '}' = width front + width key + 2 := by
      rw [hbraces.2]
      omega
    rw [hstop] at hpast
    obtain ⟨names, hnames, hmem⟩ := ih hshort
      (if String.ofList (trim key) = "" then found else insert (String.ofList (trim key)) found)
    refine ⟨names, ?_, fun name => ?_⟩
    · rw [placeholdersFrom, firstOctet?_of_notMem_append (by decide) hfront]
      simp only [hbehind, Outcome.ok_bind, firstOctet?_of_notMem_append (by decide) hkey,
        hname, hpast]
      exact hnames
    · rw [hmem, Template.keys_append hfront, Template.keys_placeholder hkey, List.mem_cons]
      split
      next hempty => grind
      next hempty => grind

end Names

theorem exists_placeholders (template : String) : ∃ names, placeholders template = .ok names ∧
    ∀ name, name ∈ names ↔ name ≠ "" ∧ name ∈ Template.keys template.toList := by
  have hfuel : template.toList.length < template.length + 1 := by
    rw [String.length_toList]
    exact Nat.lt_succ_self _
  obtain ⟨names, hnames, hmem⟩ := exists_placeholdersFrom hfuel ∅
  refine ⟨names, hnames, fun name => ?_⟩
  rw [hmem]
  exact or_iff_right (Finset.notMem_empty name)

end Octets

namespace Template

/-- Rendering comes to an end, with each placeholder replaced and nothing read twice. The keys that
it looks up on the way are those that are collected beforehand, and the empty key if a placeholder
has no name. So where all names are declared, contexts that agree on the declared keys and on the
empty one make no difference. -/
theorem render_asks_placeholders (template : String) :
    (∀ ctx, ∃ last, (Octets.Rendering.start template).Ends ctx last ∧
      String.ofList last.text = render ctx template ∧
      ∀ asked out, Renders ctx template.toList asked out ↔
      asked = last.asked ∧ out = last.text) ∧
    (∃ names, Octets.placeholders template = .ok names ∧
      (∀ name, name ∈ names ↔ name ∈ placeholders template) ∧
      ∀ ctx last, (Octets.Rendering.start template).Ends ctx last →
        ∀ name, name ∈ names ↔ name ≠ "" ∧ name ∈ last.asked) ∧
    ∀ declared ctx ctx', Octets.declares declared template = .ok true →
      (∀ key ∈ declared, ctx.find? key = ctx'.find? key) → ctx.find? "" = ctx'.find? "" →
      render ctx template = render ctx' template := by
  have hruns (ctx : Context) := Octets.Rendering.exists_run_start ctx template
  obtain ⟨names, hnames, hmem⟩ := Octets.exists_placeholders template
  refine ⟨fun ctx => ?_, ⟨names, hnames, fun name => ?_, fun ctx last hlast name => ?_⟩, ?_⟩
  · obtain ⟨last, hrun, htext, hasked⟩ := hruns ctx
    refine ⟨last, Octets.Rendering.ends_of_run hrun, htext, fun asked out => ?_⟩
    rw [hasked, String.ofList_injective htext]
    exact renders_iff
  · rw [hmem, mem_placeholders_iff]
  · obtain ⟨last', hrun, -, hasked⟩ := hruns ctx
    rw [hlast.unique (Octets.Rendering.ends_of_run hrun), hasked, hmem]
  · intro declared ctx ctx' hdeclares hagree hempty
    rw [Octets.declares, hnames, Octets.Outcome.ok_bind] at hdeclares
    have hsub : names ⊆ declared := of_decide_eq_true (Octets.Outcome.ok.inj hdeclares)
    refine render_congr fun key hkey => ?_
    by_cases hne : key = ""
    · rw [hne, hempty]
    · exact hagree key (hsub ((hmem key).2 ⟨hne, hkey⟩))

/-- A brace within a placeholder, a placeholder without a name, a brace that is never closed, and a
value that looks like a placeholder. -/
theorem render_asks_placeholders_braces :
    let template := "{function}{ }\x7b{max}\x7b"
    let ctx : Context := [("function", "{max}"), ("max", "2")]
    let ctx' : Context := [("actual", "3"), ("function", "{max}")]
    Octets.declares {"function", "\x7bmax"} template = .ok true ∧
      (∀ key ∈ ({"function", "\x7bmax"} : Finset String), ctx.find? key = ctx'.find? key) ∧
      ctx.find? "" = ctx'.find? "" ∧ render ctx template = "{max}\x7b" ∧
      render ctx template = render ctx' template := by
  intro template ctx ctx'
  have hdeclares : Octets.declares {"function", "\x7bmax"} template = .ok true := by cbv
  have hagree : ∀ key ∈ ({"function", "\x7bmax"} : Finset String),
      ctx.find? key = ctx'.find? key := by decide
  obtain ⟨-, -, hcongr⟩ := render_asks_placeholders template
  exact ⟨hdeclares, hagree, rfl, by cbv, hcongr _ ctx ctx' hdeclares hagree rfl⟩

end Template

end SceneExpr
