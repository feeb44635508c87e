import SceneExpr.Catalog.Standard
import SceneExpr.Proofs.Grammar.Faults
import SceneExpr.Proofs.Tree.Failure

namespace SceneExpr

namespace Template

/-- The template is filled in: each placeholder has given way to the value of its key, all else is
as it was. -/
inductive Filled (ctx : Context) : List Char → List Char → Prop where
  | nil : Filled ctx [] []
  | char {c : Char} {cs ds : List Char} : c ≠ '{' → Filled ctx cs ds →
      Filled ctx (c :: cs) (c :: ds)
  | placeholder {key cs ds : List Char} {value : String} : '}' ∉ key →
      ctx.find? (String.ofList (trim key)) = some value → Filled ctx cs ds →
      Filled ctx ('{' :: (key ++ '}' :: cs)) (value.toList ++ ds)

/-- All placeholders are closed, and each is one of the keys. As in rendering, `key` is the part
read so far of a placeholder that is open. -/
def closesWithin (keys : List String) : (key : Option (List Char)) → List Char → Bool
  | none, [] => true
  | some _, [] => false
  | none, c :: cs => if c = '{' then closesWithin keys (some []) cs else closesWithin keys none cs
  | some key, c :: cs =>
    if c = '}' then keys.contains (String.ofList (trim key)) && closesWithin keys none cs
    else closesWithin keys (some (key ++ [c])) cs

variable {ctx : Context} {cs ds : List Char}

theorem exists_find? {key : String} (h : key ∈ ctx.map (·.1)) :
    ∃ value, ctx.find? key = some value := by
  obtain ⟨pair, hmem, rfl⟩ := List.mem_map.1 h
  have hsome : (ctx.find? pair.1).isSome :=
    List.lookup_isSome_iff.2 ⟨pair, hmem, beq_self_eq_true _⟩
  exact Option.isSome_iff_exists.1 hsome

/-- Rendering fills in every template that mentions keys of the context only. -/
theorem filled_renderFrom :
    (closesWithin (ctx.map (·.1)) none cs = true → Filled ctx cs (renderFrom ctx none cs)) ∧
    ∀ key, '}' ∉ key → closesWithin (ctx.map (·.1)) (some key) cs = true →
      Filled ctx ('{' :: (key ++ cs)) (renderFrom ctx (some key) cs) := by
  induction cs with
  | nil => exact ⟨fun _ => .nil, fun _ _ h => by simp [closesWithin] at h⟩
  | cons c cs ih =>
    refine ⟨fun h => ?_, fun key hkey h => ?_⟩
    · rw [closesWithin] at h
      rw [renderFrom]
      split at h
      next hc =>
        subst hc
        exact ih.2 [] (by simp) h
      next hc =>
        rw [if_neg hc]
        exact .char hc (ih.1 h)
    · rw [closesWithin] at h
      rw [renderFrom]
      split at h
      next hc =>
        subst hc
        obtain ⟨hmem, hclosed⟩ := Bool.and_eq_true_iff.1 h
        obtain ⟨value, hvalue⟩ := exists_find? (List.contains_iff_mem.1 hmem)
        rw [if_pos rfl, fill, hvalue]
        exact .placeholder hkey hvalue (ih.1 hclosed)
      next hc =>
        rw [if_neg hc, List.append_cons]
        exact ih.2 (key ++ [c]) (by simp [hkey, Ne.symm hc]) h

/-- What stands outside of placeholders is rendered in any case. -/
theorem sublist_renderFrom (key : Option (List Char)) (cs : List Char) :
    (renderFrom [] key cs).Sublist (renderFrom ctx key cs) := by
  fun_induction renderFrom ctx key cs with
  | case1 => exact .refl _
  | case2 key => exact .refl _
  | case3 cs ih => simpa [renderFrom] using ih
  | case4 c cs hc ih =>
    rw [renderFrom, if_neg hc]
    exact ih.cons_cons c
  | case5 key cs ih =>
    rw [renderFrom, if_pos rfl]
    exact (List.nil_sublist _).append ih
  | case6 key c cs hc ih =>
    rw [renderFrom, if_neg hc]
    exact ih

theorem Filled.exists_of_mem_holes (h : Filled ctx cs ds) {key : List Char}
    (hkey : key ∈ holes cs) :
    ∃ value, ctx.find? (String.ofList (trim key)) = some value := by
  induction h with
  | nil => simp [holes] at hkey
  | char hc _ ih =>
    rw [holes, if_neg hc] at hkey
    exact ih hkey
  | @placeholder name cs ds value hname hvalue _ ih =>
    have hpass : ∀ c ∈ name, decide (c ≠ '}') = true :=
      fun c hc => by simpa using ne_of_mem_of_not_mem hc hname
    rw [holes, if_pos rfl, if_pos (by simp), List.takeWhile_append_of_pos hpass,
      List.takeWhile_cons_of_neg (by simp), List.append_nil, List.dropWhile_append_of_pos hpass,
      List.dropWhile_cons_of_neg (by simp)] at hkey
    rcases List.mem_cons.1 hkey with rfl | hkey
    · exact ⟨value, hvalue⟩
    · rw [holes, if_neg (by decide)] at hkey
      exact ih hkey

theorem Filled.exists_of_mem_placeholders {template : String} (h : Filled ctx template.toList ds)
    {key : String} (hkey : key ∈ placeholders template) :
    ∃ value, ctx.find? key = some value := by
  rw [placeholders, List.mem_eraseDups] at hkey
  obtain ⟨name, hname, rfl⟩ := List.mem_map.1 hkey
  obtain ⟨hole, hhole, rfl⟩ := List.mem_map.1 (List.mem_filter.1 hname).1
  exact h.exists_of_mem_holes hhole

end Template

/-- Each fault has a template of its own, which mentions its particulars only and has more than one
word. -/
theorem Fault.exists_template (f : Fault) :
    ∃ template, f.kind.code.template? f.variant = some template ∧
    Template.closesWithin (f.context.map (·.1)) none template.toList = true ∧
    (Template.renderFrom [] none template.toList).contains ' ' = true := by
  cases f with
  | unclosedList function =>
    by_cases hfunction : function = ""
    · subst hfunction
      exact ⟨_, rfl, by cbv, by cbv⟩
    · rw [variant, context, if_neg hfunction, if_neg hfunction]
      exact ⟨_, rfl, by cbv, by cbv⟩
  | arity function min max actual =>
    rw [variant]
    split <;> exact ⟨_, rfl, by cbv, by cbv⟩
  | _ => exact ⟨_, rfl, by cbv, by cbv⟩

namespace ParseError

/-- The message is the template that the error's code has for the variant, with all placeholders
filled in. -/
def Worded (e : ParseError) (variant : String) : Prop :=
  ∃ template, e.kind.code.template? variant = some template ∧
    (∀ key ∈ Template.placeholders template, ∃ value, e.context.find? key = some value) ∧
    Template.Filled e.context template.toList e.message.toList ∧ e.message ≠ e.kind.code.id

theorem blank_not_mem_id (kind : ErrorKind) : ' ' ∉ kind.code.id.toList := by
  cases kind <;> decide

end ParseError

theorem Fault.worded (f : Fault) (span : Span) : (f.error span).Worded f.variant := by
  obtain ⟨template, htemplate, hclosed, hblank⟩ := f.exists_template
  have hmessage : (f.error span).message = Template.render f.context template := by
    change ((f.kind.code.render? f.variant f.context <|> _).getD _) = _
    rw [Code.render?, htemplate]
    rfl
  have hrendered : (f.error span).message.toList =
      Template.renderFrom f.context none template.toList := by
    rw [hmessage, Template.render, String.toList_ofList]
  have hfilled : Template.Filled f.context template.toList (f.error span).message.toList := by
    rw [hrendered]
    exact Template.filled_renderFrom.1 hclosed
  refine ⟨template, htemplate, fun key => hfilled.exists_of_mem_placeholders, hfilled, ?_⟩
  intro hid
  apply ParseError.blank_not_mem_id f.kind
  change (f.error span).message = f.kind.code.id at hid
  rw [← hid, hrendered]
  exact (Template.sublist_renderFrom none template.toList).subset (List.contains_iff_mem.1 hblank)

namespace Parser

variable {p : Parser} {kind : ValueKind} {text : String} {e : ParseError}

theorem Blames.exists_fault {levels : Nat} {trail : List Origin} {kind' : ValueKind}
    {inner : String} (h : p.Blames levels kind text trail kind' inner e) :
    ∃ (fault : Fault) (span : Span), e = fault.error span := by
  induction h with
  | tooDeep kind text => exact ⟨_, _, rfl⟩
  | @scan levels kind text e _ herror _ =>
    obtain ⟨fault, span, -, rfl⟩ := p.faultsOfText_scan kind text e herror
    exact ⟨fault, span, rfl⟩
  | argument _ _ ih => exact ih

/-- On its way out of arguments an error is moved and keeps its words. -/
theorem worded_foldr_locate (trail : List Origin) {variant : String} (h : e.Worded variant) :
    (trail.foldr Origin.locate e).Worded variant := by
  induction trail with
  | nil => exact h
  | cons origin trail ih =>
    rw [List.foldr_cons]
    cases origin <;> exact ih

/-- Every error reports a fault that was found in the text or in an argument at some depth, and was
moved out of all that holds it. Its message is the template of the fault, with each placeholder
replaced by the value that the context has for it. -/
theorem worded_of_build (h : p.build kind text = .error e) :
    ∃ trail kind' inner, ∃ (fault : Fault) (span : Span),
      p.Blames (p.options.maxDepth + 1) kind text trail kind' inner (fault.error span) ∧
      e = trail.foldr Origin.locate (fault.error span) ∧ e.Worded fault.variant := by
  rw [build_eq_enter] at h
  obtain ⟨trail, kind', inner, raised, hblames, rfl⟩ := enter_eq_error_iff.1 h
  obtain ⟨fault, span, rfl⟩ := hblames.exists_fault
  exact ⟨trail, kind', inner, fault, span, hblames, rfl,
    worded_foldr_locate trail (fault.worded span)⟩

/-- A default value lacks an argument, and the call that it stands in for is an argument itself. -/
theorem worded_of_build_default :
    let p : Parser := ⟨.indexed "1.0" [
        Catalog.Standard.function "Abs" .number [Catalog.Standard.given .expression "x"],
        Catalog.Standard.function "Wrap" .number
          [Catalog.Standard.allowed .expression "x" "Abs()"]],
      .empty, {}⟩
    let e : ParseError := ⟨.arityMismatch, ⟨8, 9⟩, "Abs expects 1 arguments, got 0",
      [("actual", "0"), ("function", "Abs"), ("max", "1"), ("min", "1")]⟩
    p.build .number "Abs(Wrap())" = .error e ∧
      ∃ trail kind' inner, ∃ (fault : Fault) (span : Span),
      p.Blames 65 .number "Abs(Wrap())" trail kind' inner (fault.error span) ∧
      e = trail.foldr Origin.locate (fault.error span) ∧ e.Worded fault.variant := by
  intro p e
  have he : p.build .number "Abs(Wrap())" = .error e := by cbv
  exact ⟨he, worded_of_build he⟩

end Parser

end SceneExpr
