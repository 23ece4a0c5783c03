import TypeBridge.Proofs.References

/-!
Lists of type parameters, simplified. Removing repeated arms twice is the same as removing them once.
Parameters with new names are appended as they come, and parameters whose names are there are dropped.
-/

namespace TypeBridge

namespace Expr

theorem sameList_self_iff {es : List Expr} :
    sameList es es = true ↔ ∀ e ∈ es, same e e = true := by
  induction es with
  | nil => simp [sameList]
  | cons e rest ih => rw [sameList, Bool.and_eq_true, ih, List.forall_mem_cons]

theorem same_keyword_self (word : Keyword) : same (.keyword word) (.keyword word) = true := by
  simp [same]

theorem same_array_self {elem : Expr} (h : same elem elem = true) :
    same (.array elem) (.array elem) = true := by
  rw [same]
  exact h

theorem same_reference_self (name : Identifier) {args : List Expr}
    (h : ∀ e ∈ args, same e e = true) :
    same (.reference name args) (.reference name args) = true := by
  rw [same, sameList_self_iff.mpr h, beq_self_eq_true]
  rfl

theorem same_union_self_iff {arms : List Expr} :
    same (.union arms) (.union arms) = true ↔ ∀ e ∈ arms, same e e = true := by
  rw [same, sameList_self_iff]

/-- Removing repeated arms appends arms to those kept, and from these nothing more is removed. -/
theorem exists_distinctArms (kept arms : List Expr) :
    ∃ added, distinctArms kept arms = kept ++ added ∧ distinctArms kept added = kept ++ added := by
  induction arms generalizing kept with
  | nil => exact ⟨[], (List.append_nil _).symm, (List.append_nil _).symm⟩
  | cons arm rest ih =>
      by_cases hrepeated : (arm.isPlain && kept.any (same arm)) = true
      · obtain ⟨added, hrest, hadded⟩ := ih kept
        refine ⟨added, ?_, hadded⟩
        rw [distinctArms, if_pos hrepeated, hrest]
      · obtain ⟨added, hrest, hadded⟩ := ih (kept ++ [arm])
        rw [List.append_assoc, List.singleton_append] at hrest hadded
        refine ⟨arm :: added, ?_, ?_⟩
        · rw [distinctArms, if_neg hrepeated, hrest]
        · rw [distinctArms, if_neg hrepeated, hadded]

theorem withDistinctArms_idem (e : Expr) :
    e.withDistinctArms.withDistinctArms = e.withDistinctArms := by
  cases e with
  | union arms =>
      obtain ⟨added, hfirst, hagain⟩ := exists_distinctArms [] arms
      simp only [withDistinctArms]
      rw [hfirst, List.nil_append, hagain, List.nil_append]
  | _ => rfl

theorem same_withDistinctArms_self {e : Expr} (h : same e e = true) :
    same e.withDistinctArms e.withDistinctArms = true := by
  cases e with
  | union arms =>
      apply same_union_self_iff.mpr
      intro arm harm
      rcases mem_of_mem_distinctArms harm with hnil | harm
      · cases hnil
      · exact same_union_self_iff.mp h arm harm
  | _ => exact h

end Expr

namespace TypeParameter

@[simp] theorem tidy_name (p : TypeParameter) : p.tidy.name = p.name := rfl

theorem tidy_idem (p : TypeParameter) : p.tidy.tidy = p.tidy := by
  obtain ⟨name, modifiers, constraint, default⟩ := p
  cases constraint with
  | none => rfl
  | some bound => simp only [tidy, Option.map_some, Expr.withDistinctArms_idem]

/-- The name that a parameter is merged by. -/
def key (p : TypeParameter) : String := p.name.emitted

theorem find?_key_eq_none_iff {kept : List TypeParameter} {name : String} :
    kept.find? (fun k => k.name.emitted == name) = none ↔ ∀ k ∈ kept, k.key ≠ name := by
  simp [List.find?_eq_none, key]

/-- Parameters with new names are appended, tidied, in their order. -/
theorem merge_append_of_new {kept params : List TypeParameter} (rest : List TypeParameter)
    (hnodup : (params.map key).Nodup) (hnew : ∀ p ∈ params, ∀ k ∈ kept, k.key ≠ p.key) :
    merge kept (params ++ rest) = merge (kept ++ params.map tidy) rest := by
  induction params generalizing kept with
  | nil => rw [List.map_nil, List.append_nil, List.nil_append]
  | cons p params ih =>
      rw [List.map_cons, List.nodup_cons] at hnodup
      have hfind : kept.find? (fun k => k.name.emitted == p.tidy.name.emitted) = none :=
        find?_key_eq_none_iff.mpr (hnew p List.mem_cons_self)
      have hlater : ∀ q ∈ params, ∀ k ∈ kept ++ [p.tidy], k.key ≠ q.key := by
        intro q hq k hk
        rcases List.mem_append.mp hk with hk | hk
        · exact hnew q (List.mem_cons_of_mem _ hq) k hk
        · rw [List.mem_singleton.mp hk]
          intro hsame
          apply hnodup.1
          exact List.mem_map.mpr ⟨q, hq, hsame.symm⟩
      rw [List.cons_append, merge]
      simp only [hfind]
      rw [ih hnodup.2 hlater, List.map_cons, List.append_assoc, List.singleton_append]

/-- Parameters whose names are there add nothing. -/
theorem merge_eq_of_known {kept params merged : List TypeParameter}
    (hknown : ∀ p ∈ params, ∃ k ∈ kept, k.key = p.key) (h : merge kept params = .ok merged) :
    merged = kept := by
  induction params with
  | nil =>
      cases h
      rfl
  | cons p rest ih =>
      rw [merge] at h
      split at h
      · rename_i hfind
        obtain ⟨k, hk, hsame⟩ := hknown p List.mem_cons_self
        exact absurd hsame (find?_key_eq_none_iff.mp hfind k hk)
      · split at h
        · exact ih (fun q hq => hknown q (List.mem_cons_of_mem _ hq)) h
        · cases h

/-- Distinct parameters, followed by parameters of the same names, simplify to the distinct ones. -/
theorem simplify_append_eq {params more simplified : List TypeParameter}
    (hnodup : (params.map key).Nodup) (hmore : ∀ q ∈ more, ∃ p ∈ params, p.key = q.key)
    (h : simplify (params ++ more) = .ok simplified) : simplified = params.map tidy := by
  rw [simplify, merge_append_of_new more hnodup (fun _ _ => List.forall_mem_nil _), List.nil_append] at h
  apply merge_eq_of_known _ h
  intro q hq
  obtain ⟨p, hp, hsame⟩ := hmore q hq
  exact ⟨p.tidy, List.mem_map_of_mem hp, hsame⟩

/-- Two parameters of one name have the same tidied constraint. -/
def Agrees (p q : TypeParameter) : Prop :=
  p.key = q.key → Expr.sameOption p.tidy.constraint q.tidy.constraint = true

theorem exists_tidy_of_simplify {params simplified : List TypeParameter}
    (h : simplify params = .ok simplified) {q : TypeParameter} (hq : q ∈ simplified) :
    ∃ p ∈ params, q = p.tidy := by
  rcases (merge_eq_ok h).2.1 q hq with hnil | hparam
  · cases hnil
  · exact hparam

/-- The only error that simplifying knows is a collision. -/
theorem merge_eq_error {kept params : List TypeParameter} {e : Error}
    (h : merge kept params = .error e) : ∃ name, e = .typeParameterCollision name := by
  induction params generalizing kept with
  | nil => cases h
  | cons p rest ih =>
      rw [merge] at h
      split at h
      · exact ih h
      · split at h
        · exact ih h
        · cases h
          exact ⟨_, rfl⟩

end TypeParameter

end TypeBridge
