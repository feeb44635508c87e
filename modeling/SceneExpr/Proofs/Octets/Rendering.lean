import SceneExpr.Proofs.Diagnostic.Template
import SceneExpr.Proofs.Octets.Checked

namespace SceneExpr.Octets

/-- A rendering under way: what is written, the keys looked up so far, and what is left of the
template. -/
structure Rendering where
  done : List Char
  asked : List String
  rest : List Char

namespace Rendering

def start (template : String) : Rendering := ⟨[], [], template.toList⟩

def text (r : Rendering) : List Char := r.done ++ r.rest

/-- One turn, past the next placeholder; none if there is no opening brace. -/
def turn (ctx : Context) (r : Rendering) : Outcome (Option Rendering) :=
  match firstOctet? (· = '{') (octets r.rest) with
  | none => .ok none
  | some opened => do
    let front ← part r.rest 0 opened
    let after ← part r.rest (opened + 1) (octets r.rest).length
    match firstOctet? (· = '}') (octets after) with
    | none => do
      let back ← part r.rest opened (octets r.rest).length
      return some ⟨r.done ++ front ++ back, r.asked, []⟩
    | some closed => do
      let key ← part after 0 closed
      let past ← part after (closed + 1) (octets after).length
      let name := String.ofList (trim key)
      let value := (ctx.find? name).getD ""
      return some ⟨r.done ++ front ++ value.toList, r.asked ++ [name], past⟩

def run (ctx : Context) : (fuel : Nat) → Rendering → Outcome Rendering
  | 0, _ => .panic .endless
  | fuel + 1, r => do
    match ← r.turn ctx with
    | none => return r
    | some next => next.run ctx fuel

end Rendering

def render (ctx : Context) (template : String) : Outcome String := do
  let last ← (Rendering.start template).run ctx (template.length + 1)
  return String.ofList last.text

def message (f : Fault) : Outcome String :=
  match f.kind.code.template? f.variant with
  | some template => render f.context template
  | none =>
    match f.kind.code.template? "default" with
    | some template => render f.context template
    | none => .ok f.kind.code.id

def raise {α : Type} (f : Fault) (s : Span) : Outcome α := do
  let message ← message f
  .error ⟨f.kind, s, message, f.context⟩

section Turns

variable {ctx : Context} {front key past after cs : List Char}

theorem firstOctet?_of_notMem {d : Char} (hd : d.toNat < 128) (h : d ∉ cs) :
    firstOctet? (· = d) (octets cs) = none :=
  (octetWise_eq hd).firstOctet?_of_all fun _ hc => decide_eq_false (ne_of_mem_of_not_mem hc h)

theorem firstOctet?_of_notMem_append {d : Char} (hd : d.toNat < 128) (h : d ∉ front)
    (back : List Char) :
    firstOctet? (· = d) (octets (front ++ d :: back)) = some (width front) :=
  (octetWise_eq hd).firstOctet?_append_cons
    (fun _ hc => decide_eq_false (ne_of_mem_of_not_mem hc h)) (decide_eq_true rfl) back

/-- The parts of a text in front of a character of ASCII, from it on, and behind it. -/
theorem parts_append_cons {d : Char} (hd : d.toNat < 128) (front back : List Char) :
    part (front ++ d :: back) 0 (width front) = .ok front ∧
    part (front ++ d :: back) (width front) (octets (front ++ d :: back)).length =
      .ok (d :: back) ∧
    part (front ++ d :: back) (width front + 1) (octets (front ++ d :: back)).length =
      .ok back := by
  have hwhole := RestAt.whole (front ++ d :: back)
  have hat := hwhole.advance
  have hbehind := hat.advance_cons
  have hfront := part_of_restAt hwhole
  rw [Nat.zero_add] at hat hbehind hfront
  rw [utf8Size_of_lt hd] at hbehind
  exact ⟨hfront, part_to_end hat, part_to_end hbehind⟩

theorem Rendering.turn_plain {r : Rendering} (h : '{' ∉ r.rest) : r.turn ctx = .ok none := by
  rw [turn, firstOctet?_of_notMem (by decide) h]

theorem Rendering.turn_unclosed (ctx : Context) (hfront : '{' ∉ front) (hafter : '}' ∉ after)
    (done : List Char) (asked : List String) :
    turn ctx ⟨done, asked, front ++ '{' :: after⟩ =
      .ok (some ⟨done ++ front ++ '{' :: after, asked, []⟩) := by
  obtain ⟨hparts, hback, hbehind⟩ := parts_append_cons (d := '{') (by decide) front after
  rw [turn, firstOctet?_of_notMem_append (by decide) hfront]
  simp only [hparts, hback, hbehind, firstOctet?_of_notMem (by decide) hafter, Outcome.ok_bind,
    Outcome.pure_eq]

theorem Rendering.turn_placeholder (ctx : Context) (hfront : '{' ∉ front) (hkey : '}' ∉ key)
    (done past : List Char) (asked : List String) :
    turn ctx ⟨done, asked, front ++ '{' :: (key ++ '}' :: past)⟩ =
      .ok (some ⟨done ++ front ++ Template.fill ctx key,
        asked ++ [String.ofList (trim key)], past⟩) := by
  obtain ⟨hparts, -, hbehind⟩ :=
    parts_append_cons (d := '{') (by decide) front (key ++ '}' :: past)
  obtain ⟨hname, -, hpast⟩ := parts_append_cons (d := '}') (by decide) key past
  rw [turn, firstOctet?_of_notMem_append (by decide) hfront]
  simp only [hparts, hbehind, firstOctet?_of_notMem_append (by decide) hkey, hname, hpast,
    Outcome.ok_bind, Outcome.pure_eq, Template.fill]

namespace Rendering

theorem run_of_end {r : Rendering} (h : r.turn ctx = .ok none) (fuel : Nat) :
    r.run ctx (fuel + 1) = .ok r := by
  rw [run, h]
  rfl

theorem run_of_turn {r next : Rendering} (h : r.turn ctx = .ok (some next)) (fuel : Nat) :
    r.run ctx (fuel + 1) = next.run ctx fuel := by
  rw [run, h]
  rfl

/-- The turns come to an end, where the template is rendered and its keys have been looked up. -/
theorem exists_run (ctx : Context) (cs : List Char) {fuel : Nat} (hfuel : cs.length < fuel)
    (done : List Char) (asked : List String) :
    ∃ last, run ctx fuel ⟨done, asked, cs⟩ = .ok last ∧
      last.text = done ++ Template.renderFrom ctx none cs ∧
      last.asked = asked ++ Template.keys cs := by
  induction cs using Template.brace_induction generalizing fuel done asked with
  | plain cs h =>
    obtain ⟨fuel, rfl⟩ := Nat.exists_eq_add_one.2 (Nat.zero_lt_of_lt hfuel)
    refine ⟨_, run_of_end (turn_plain h) fuel, ?_, ?_⟩
    · rw [text, Template.renderFrom_plain h]
    · rw [Template.keys_plain h, List.append_nil]
  | unclosed front after hfront hafter =>
    -- One turn takes all that is left, and the next one finds nothing.
    obtain ⟨fuel, rfl⟩ : ∃ n, fuel = n + 1 + 1 := by
      simp only [List.length_append, List.length_cons] at hfuel
      exact ⟨fuel - 2, by omega⟩
    refine ⟨_, (run_of_turn (turn_unclosed ctx hfront hafter done asked) _).trans
      (run_of_end (turn_plain (by simp)) fuel), ?_, ?_⟩
    · rw [text, Template.renderFrom_append hfront, Template.renderFrom_unclosed hafter,
        List.append_nil, List.append_assoc]
    · rw [Template.keys_append hfront, Template.keys_unclosed hafter, List.append_nil]
  | placeholder front key past hfront hkey ih =>
    obtain ⟨fuel, rfl⟩ := Nat.exists_eq_add_one.2 (Nat.zero_lt_of_lt hfuel)
    have hshort : past.length < fuel := by
      simp only [List.length_append, List.length_cons] at hfuel
      omega
    obtain ⟨last, hrun, htext, hasked⟩ := ih hshort (done ++ front ++ Template.fill ctx key)
      (asked ++ [String.ofList (trim key)])
    refine ⟨last, (run_of_turn (turn_placeholder ctx hfront hkey done past asked) _).trans hrun,
      ?_, ?_⟩
    · rw [htext, Template.renderFrom_append hfront, Template.renderFrom_placeholder hkey]
      simp only [List.append_assoc]
    · rw [hasked, Template.keys_append hfront, Template.keys_placeholder hkey, List.append_assoc,
        List.singleton_append]

theorem exists_run_start (ctx : Context) (template : String) :
    ∃ last, (start template).run ctx (template.length + 1) = .ok last ∧
      String.ofList last.text = Template.render ctx template ∧
      last.asked = Template.keys template.toList := by
  have hfuel : template.toList.length < template.length + 1 := by
    rw [String.length_toList]
    exact Nat.lt_succ_self _
  obtain ⟨last, hrun, htext, hasked⟩ := exists_run ctx template.toList hfuel [] []
  exact ⟨last, hrun, congrArg String.ofList htext, hasked⟩

end Rendering

end Turns

/-- Reading a template by offsets never goes wrong. -/
theorem render_eq (ctx : Context) (template : String) :
    render ctx template = .ok (Template.render ctx template) := by
  obtain ⟨last, hrun, htext, -⟩ := Rendering.exists_run_start ctx template
  rw [render, hrun, Outcome.ok_bind, htext]
  rfl

/-- An error is raised with the message that it has. -/
theorem raise_eq {α : Type} (f : Fault) (s : Span) :
    (raise f s : Outcome α) = .error (f.error s) := by
  have hmessage : message f = .ok (f.error s).message := by
    unfold message
    simp only [Fault.error, ParseError.new, Code.render?]
    cases f.kind.code.template? f.variant with
    | some template => exact render_eq _ _
    | none =>
      cases f.kind.code.template? "default" with
      | some template => exact render_eq _ _
      | none => rfl
  rw [raise, hmessage]
  rfl

end SceneExpr.Octets
