import SceneExpr.Proofs.Catalog.Lookup

namespace SceneExpr

namespace Catalog

variable {c c' : Catalog} {s : Signature}

theorem validateFrom_eq_ok {index : Nat} {seen : List Key} {functions : List Signature}
    (hflaw : ∀ s ∈ functions, s.flaw? = none) (hkeys : (functions.map Key.ofSignature).Nodup)
    (hseen : ∀ s ∈ functions, Key.ofSignature s ∉ seen) :
    validateFrom index seen functions = .ok () := by
  induction functions generalizing index seen with
  | nil => rfl
  | cons s functions ih =>
    obtain ⟨hs, hflaw⟩ := List.forall_mem_cons.1 hflaw
    obtain ⟨hnew, hkeys⟩ := List.nodup_cons.1 hkeys
    obtain ⟨hkey, hseen⟩ := List.forall_mem_cons.1 hseen
    simp only [validateFrom, hs, if_neg hkey]
    refine ih hflaw hkeys fun t ht hmem => ?_
    rcases List.mem_cons.1 hmem with heq | hmem
    · exact hnew (heq ▸ List.mem_map_of_mem ht)
    · exact hseen t ht hmem

theorem validate_of_perm (h : c.validate = .ok ()) (hperm : c.functions.Perm c'.functions) :
    c'.validate = .ok () := by
  have hkeys : (c'.functions.map Key.ofSignature).Nodup :=
    (hperm.map Key.ofSignature).nodup_iff.1 (keys_of_validateFrom h).1
  have hflaw : ∀ s ∈ c'.functions, s.flaw? = none := fun s hs =>
    flaw?_eq_none_of_validateFrom h (hperm.mem_iff.2 hs)
  exact validateFrom_eq_ok hflaw hkeys fun _ _ => List.not_mem_nil

theorem find?_eq_some_iff (h : c.validate = .ok ()) {k : Key} :
    c.find? k = some s ↔ s ∈ c.functions ∧ Key.ofSignature s = k := by
  refine ⟨mem_of_find?, ?_⟩
  rintro ⟨hs, rfl⟩
  exact find?_of_mem h hs

theorem find?_of_perm (h : c.validate = .ok ()) (hperm : c.functions.Perm c'.functions) :
    c'.find? = c.find? := by
  funext k
  refine Option.ext fun s => ?_
  rw [find?_eq_some_iff h, find?_eq_some_iff (validate_of_perm h hperm), hperm.mem_iff]

end Catalog

/-- What a site stands for depends on what is found under the keys and on nothing else in the
catalog. -/
theorem Resolution.find_congr {c c' : Catalog} (h : c'.find? = c.find?) (scene : Scene)
    (kind : ValueKind) (site : CallSite) : find c' scene kind site = find c scene kind site := by
  simp only [find, static, member, behavior, Catalog.static?, Catalog.object?, Catalog.behavior?, h]

end SceneExpr
