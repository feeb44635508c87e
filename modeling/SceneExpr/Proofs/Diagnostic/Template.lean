import Mathlib.Data.List.TakeWhile
import SceneExpr.Diagnostic.Template

namespace SceneExpr.Template

/-- A template, the keys that are looked up for it in order, and what it becomes. -/
inductive Renders (ctx : Context) : List Char → List String → List Char → Prop where
  | nil : Renders ctx [] [] []
  | plain {c : Char} {cs out : List Char} {asked : List String} : c ≠ '{' →
      Renders ctx cs asked out →
      Renders ctx (c :: cs) asked (c :: out)
  | present {key cs out : List Char} {asked : List String} {value : String} : '}' ∉ key →
      ctx.find? (String.ofList (trim key)) = some value → Renders ctx cs asked out →
      Renders ctx ('{' :: (key ++ '}' :: cs)) (String.ofList (trim key) :: asked)
      (value.toList ++ out)
  | absent {key cs out : List Char} {asked : List String} : '}' ∉ key →
      ctx.find? (String.ofList (trim key)) = none → Renders ctx cs asked out →
      Renders ctx ('{' :: (key ++ '}' :: cs)) (String.ofList (trim key) :: asked) out
  | unclosed {cs : List Char} : '}' ∉ cs → Renders ctx ('{' :: cs) [] ('{' :: cs)

/-- The keys that a template mentions, in order; one may be empty. -/
def keys (cs : List Char) : List String := (holes cs).map fun key => String.ofList (trim key)

theorem mem_placeholders_iff {template key : String} :
    key ∈ placeholders template ↔ key ≠ "" ∧ key ∈ keys template.toList := by
  rw [placeholders, List.mem_eraseDups, List.mem_map, keys, List.mem_map]
  constructor
  · rintro ⟨name, hname, rfl⟩
    obtain ⟨hmem, hne⟩ := List.mem_filter.1 hname
    obtain ⟨hole, hhole, rfl⟩ := List.mem_map.1 hmem
    exact ⟨by simpa using hne, hole, hhole, rfl⟩
  · rintro ⟨hne, hole, hhole, rfl⟩
    refine ⟨trim hole, List.mem_filter.2 ⟨List.mem_map_of_mem hhole, ?_⟩, rfl⟩
    simpa using hne

/-- A template without an opening brace, one that ends behind a brace which is never closed, and one
that starts with text and a placeholder. -/
theorem brace_induction {P : List Char → Prop} (plain : ∀ cs, '{' ∉ cs → P cs)
    (unclosed : ∀ front after, '{' ∉ front → '}' ∉ after → P (front ++ '{' :: after))
    (placeholder : ∀ front key past, '{' ∉ front → '}' ∉ key → P past →
      P (front ++ '{' :: (key ++ '}' :: past)))
    (cs : List Char) : P cs := by
  induction h : cs.length using Nat.strong_induction_on generalizing cs with
  | h n ih =>
    by_cases hopen : '{' ∈ cs
    · obtain ⟨front, after, rfl, hfront⟩ := List.eq_append_cons_of_mem hopen
      by_cases hclose : '}' ∈ after
      · obtain ⟨key, past, rfl, hkey⟩ := List.eq_append_cons_of_mem hclose
        refine placeholder front key past hfront hkey (ih past.length ?_ past rfl)
        simp only [List.length_append, List.length_cons] at h
        omega
      · exact unclosed front after hfront hclose
    · exact plain cs hopen

section Equations

variable {ctx : Context} {front key cs : List Char}

theorem holes_append (h : '{' ∉ front) (cs : List Char) : holes (front ++ cs) = holes cs := by
  induction front with
  | nil => rfl
  | cons c front ih =>
    obtain ⟨hc, hfront⟩ := List.ne_and_not_mem_of_not_mem_cons h
    rw [List.cons_append, holes_cons (Ne.symm hc), ih hfront]

theorem holes_placeholder (h : '}' ∉ key) (past : List Char) :
    holes ('{' :: (key ++ '}' :: past)) = key :: holes past := by
  have hpass : ∀ c ∈ key, decide (c ≠ '}') = true :=
    fun c hc => by simpa using ne_of_mem_of_not_mem hc h
  rw [holes, if_pos rfl, if_pos (by simp), List.takeWhile_append_of_pos hpass,
    List.takeWhile_cons_of_neg (by simp), List.append_nil, List.dropWhile_append_of_pos hpass,
    List.dropWhile_cons_of_neg (by simp), holes_cons (by decide)]

theorem keys_plain (h : '{' ∉ cs) : keys cs = [] := by
  have hholes := holes_append h []
  rw [List.append_nil, holes] at hholes
  rw [keys, hholes, List.map_nil]

theorem keys_append (h : '{' ∉ front) (cs : List Char) : keys (front ++ cs) = keys cs := by
  rw [keys, holes_append h, keys]

theorem keys_placeholder (h : '}' ∉ key) (past : List Char) :
    keys ('{' :: (key ++ '}' :: past)) = String.ofList (trim key) :: keys past := by
  rw [keys, holes_placeholder h, List.map_cons, keys]

theorem keys_unclosed (h : '}' ∉ cs) : keys ('{' :: cs) = [] := by
  rw [keys, holes, if_pos rfl, if_neg h, List.map_nil]

theorem renderFrom_append (h : '{' ∉ front) (cs : List Char) :
    renderFrom ctx none (front ++ cs) = front ++ renderFrom ctx none cs := by
  induction front with
  | nil => rfl
  | cons c front ih =>
    obtain ⟨hc, hfront⟩ := List.ne_and_not_mem_of_not_mem_cons h
    rw [List.cons_append, renderFrom_cons (Ne.symm hc), ih hfront, List.cons_append]

theorem renderFrom_plain (h : '{' ∉ cs) : renderFrom ctx none cs = cs := by
  have hrest : renderFrom ctx none (cs ++ []) = cs ++ renderFrom ctx none [] :=
    renderFrom_append h []
  rwa [List.append_nil, renderFrom, List.append_nil] at hrest

theorem renderFrom_key (h : '}' ∉ key) (read past : List Char) :
    renderFrom ctx (some read) (key ++ '}' :: past) =
      fill ctx (read ++ key) ++ renderFrom ctx none past := by
  induction key generalizing read with
  | nil => rw [List.nil_append, renderFrom, if_pos rfl, List.append_nil]
  | cons c key ih =>
    obtain ⟨hc, hkey⟩ := List.ne_and_not_mem_of_not_mem_cons h
    rw [List.cons_append, renderFrom_some_cons (Ne.symm hc), ih hkey, List.append_assoc,
      List.singleton_append]

theorem renderFrom_open (h : '}' ∉ key) (read : List Char) :
    renderFrom ctx (some read) key = '{' :: (read ++ key) := by
  induction key generalizing read with
  | nil => rw [renderFrom, List.append_nil]
  | cons c key ih =>
    obtain ⟨hc, hkey⟩ := List.ne_and_not_mem_of_not_mem_cons h
    rw [renderFrom_some_cons (Ne.symm hc), ih hkey, List.append_assoc, List.singleton_append]

theorem renderFrom_placeholder (h : '}' ∉ key) (past : List Char) :
    renderFrom ctx none ('{' :: (key ++ '}' :: past)) =
      fill ctx key ++ renderFrom ctx none past := by
  rw [renderFrom, if_pos rfl, renderFrom_key h, List.nil_append]

theorem renderFrom_unclosed (h : '}' ∉ cs) : renderFrom ctx none ('{' :: cs) = '{' :: cs := by
  rw [renderFrom, if_pos rfl, renderFrom_open h, List.nil_append]

end Equations

section Renders

variable {ctx ctx' : Context} {cs out : List Char} {asked : List String}

theorem Renders.append {front : List Char} (hfront : '{' ∉ front) (h : Renders ctx cs asked out) :
    Renders ctx (front ++ cs) asked (front ++ out) := by
  induction front with
  | nil => exact h
  | cons c front ih =>
    obtain ⟨hc, hfront⟩ := List.ne_and_not_mem_of_not_mem_cons hfront
    exact .plain (Ne.symm hc) (ih hfront)

theorem Renders.placeholder {key : List Char} (hkey : '}' ∉ key) (h : Renders ctx cs asked out) :
    Renders ctx ('{' :: (key ++ '}' :: cs)) (String.ofList (trim key) :: asked)
      (fill ctx key ++ out) := by
  rw [fill]
  cases hvalue : ctx.find? (String.ofList (trim key)) with
  | none => exact .absent hkey hvalue h
  | some value => exact .present hkey hvalue h

theorem renders_renderFrom (ctx : Context) (cs : List Char) :
    Renders ctx cs (keys cs) (renderFrom ctx none cs) := by
  induction cs using brace_induction with
  | plain cs h =>
    rw [keys_plain h, renderFrom_plain h]
    have hplain : Renders ctx (cs ++ []) [] (cs ++ []) := .append h .nil
    rwa [List.append_nil] at hplain
  | unclosed front after hfront hafter =>
    rw [keys_append hfront, keys_unclosed hafter, renderFrom_append hfront,
      renderFrom_unclosed hafter]
    exact .append hfront (.unclosed hafter)
  | placeholder front key past hfront hkey ih =>
    rw [keys_append hfront, keys_placeholder hkey, renderFrom_append hfront,
      renderFrom_placeholder hkey]
    exact .append hfront (.placeholder hkey ih)

/-- A template is rendered in one way only. -/
theorem renders_iff :
    Renders ctx cs asked out ↔ asked = keys cs ∧ out = renderFrom ctx none cs := by
  constructor
  · intro h
    induction h with
    | nil => simp [keys, holes, renderFrom]
    | @plain c cs out asked hc _ ih =>
      have hfront : '{' ∉ [c] := by simpa using Ne.symm hc
      have hkeys := keys_append hfront cs
      have hrender : renderFrom ctx none ([c] ++ cs) = [c] ++ renderFrom ctx none cs :=
        renderFrom_append hfront cs
      exact ⟨ih.1.trans hkeys.symm, by rw [ih.2]; exact hrender.symm⟩
    | present hkey hvalue _ ih =>
      rw [keys_placeholder hkey, renderFrom_placeholder hkey, fill, hvalue, ← ih.1, ← ih.2]
      exact ⟨rfl, rfl⟩
    | absent hkey hvalue _ ih =>
      rw [keys_placeholder hkey, renderFrom_placeholder hkey, fill, hvalue, ← ih.1, ← ih.2]
      exact ⟨rfl, rfl⟩
    | unclosed h =>
      rw [keys_unclosed h, renderFrom_unclosed h]
      exact ⟨rfl, rfl⟩
  · rintro ⟨rfl, rfl⟩
    exact renders_renderFrom ctx cs

/-- Only the values of the keys that are looked up count. -/
theorem Renders.congr (h : Renders ctx cs asked out)
    (hagree : ∀ key ∈ asked, ctx.find? key = ctx'.find? key) : Renders ctx' cs asked out := by
  induction h with
  | nil => exact .nil
  | plain hc _ ih => exact .plain hc (ih hagree)
  | present hkey hvalue _ ih =>
    obtain ⟨hfirst, hmore⟩ := List.forall_mem_cons.1 hagree
    exact .present hkey (hfirst.symm.trans hvalue) (ih hmore)
  | absent hkey hvalue _ ih =>
    obtain ⟨hfirst, hmore⟩ := List.forall_mem_cons.1 hagree
    exact .absent hkey (hfirst.symm.trans hvalue) (ih hmore)
  | unclosed h => exact .unclosed h

theorem render_congr {template : String}
    (hagree : ∀ key ∈ keys template.toList, ctx.find? key = ctx'.find? key) :
    render ctx template = render ctx' template := by
  have hout := (renders_iff.1 ((renders_renderFrom ctx template.toList).congr hagree)).2
  rw [render, hout, render]

end Renders

end SceneExpr.Template
