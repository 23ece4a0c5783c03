import TypeBridge.Declaration.Walk
import TypeBridge.Generics
import TypeBridge.Mapping

/-!
The names that expressions refer to. An expression is within a set of names when every reference
inside it, at any depth, has its name in the set. Putting expressions together keeps that, and so
does tidying lists of type parameters, which loses no name.
-/

namespace TypeBridge

variable {allowed : Identifier → Prop}

namespace Expr

/-- The name of a reference, with the number of its arguments. -/
def arity? : Expr → Option (Identifier × Nat)
  | .reference name args => some (name, args.length)
  | _ => none

theorem exists_reference_of_arity? {es : List Expr} {name : Identifier} {n : Nat}
    (h : (name, n) ∈ es.filterMap arity?) : ∃ args, reference name args ∈ es ∧ args.length = n := by
  obtain ⟨e, he, harity⟩ := List.mem_filterMap.mp h
  cases e with
  | reference name' args =>
      cases harity
      exact ⟨args, he, rfl⟩
  | _ => cases harity

/-- Every name that an expression refers to is allowed. -/
def Within (allowed : Identifier → Prop) (e : Expr) : Prop :=
  ∀ name args, Expr.reference name args ∈ e.subterms → allowed name

theorem mem_subtermsList {e : Expr} {es : List Expr} :
    e ∈ subtermsList es ↔ ∃ item ∈ es, e ∈ item.subterms := by
  rw [subtermsList_eq_flatMap, List.mem_flatMap]

theorem within_keyword (word : Keyword) : (keyword word).Within allowed := by
  intro name args h
  cases List.mem_singleton.mp h

theorem within_literal (value : Literal) : (literal value).Within allowed := by
  intro name args h
  cases List.mem_singleton.mp h

theorem within_null : null.Within allowed := by
  intro name args h
  cases List.mem_singleton.mp h

theorem within_reference {name : Identifier} {args : List Expr} (hname : allowed name)
    (hargs : ∀ e ∈ args, e.Within allowed) : (reference name args).Within allowed := by
  intro other otherArgs h
  rw [subterms, List.mem_append, mem_subtermsList] at h
  rcases h with ⟨item, hitem, h⟩ | h
  · exact hargs item hitem other otherArgs h
  · cases List.mem_singleton.mp h
    exact hname

theorem within_array {elem : Expr} (h : elem.Within allowed) : (array elem).Within allowed := by
  intro name args hmem
  rw [subterms, List.mem_append] at hmem
  rcases hmem with hmem | hmem
  · exact h name args hmem
  · cases List.mem_singleton.mp hmem

theorem within_union_iff {arms : List Expr} :
    (union arms).Within allowed ↔ ∀ e ∈ arms, e.Within allowed := by
  constructor
  · intro h e he name args hmem
    refine h name args ?_
    rw [subterms, List.mem_append, mem_subtermsList]
    exact Or.inl ⟨e, he, hmem⟩
  · intro h name args hmem
    rw [subterms, List.mem_append, mem_subtermsList] at hmem
    rcases hmem with ⟨item, hitem, hmem⟩ | hmem
    · exact h item hitem name args hmem
    · cases List.mem_singleton.mp hmem

theorem mem_of_mem_distinctArms {e : Expr} {kept arms : List Expr}
    (h : e ∈ distinctArms kept arms) : e ∈ kept ∨ e ∈ arms := by
  induction arms generalizing kept with
  | nil => exact Or.inl h
  | cons arm rest ih =>
      rw [distinctArms] at h
      split at h
      · exact (ih h).imp_right fun hrest => List.mem_cons_of_mem _ hrest
      · rcases ih h with hkept | hrest
        · rcases List.mem_append.mp hkept with hkept | harm
          · exact Or.inl hkept
          · cases List.mem_singleton.mp harm
            exact Or.inr List.mem_cons_self
        · exact Or.inr (List.mem_cons_of_mem _ hrest)

theorem within_withDistinctArms {e : Expr} (h : e.Within allowed) :
    e.withDistinctArms.Within allowed := by
  unfold withDistinctArms
  split
  · refine within_union_iff.mpr fun arm harm => ?_
    rcases mem_of_mem_distinctArms harm with hnil | harm
    · cases hnil
    · exact within_union_iff.mp h arm harm
  · exact h

end Expr

namespace TypeParameter

/-- A parameter with a plain name whose constraint and default refer to allowed names only. -/
structure Within (allowed : Identifier → Prop) (p : TypeParameter) : Prop where
  plain : ∃ name, p.name = { name := name }
  exprs : ∀ e ∈ p.exprs, e.Within allowed

theorem Within.tidy {p : TypeParameter} (h : p.Within allowed) : p.tidy.Within allowed := by
  refine ⟨h.plain, fun e he => ?_⟩
  rw [TypeParameter.exprs, List.mem_append] at he
  rcases he with he | he
  · obtain ⟨bound, hbound, rfl⟩ := Option.map_eq_some_iff.mp (Option.mem_toList.mp he)
    refine Expr.within_withDistinctArms (h.exprs bound (List.mem_append_left _ ?_))
    exact Option.mem_toList.mpr hbound
  · exact h.exprs e (List.mem_append_right _ he)

/-- What merging keeps: all that was kept before, and of the others nothing but tidied parameters,
at least one for each name. -/
theorem merge_eq_ok {kept params merged : List TypeParameter} (h : merge kept params = .ok merged) :
    (∀ q ∈ kept, q ∈ merged) ∧ (∀ q ∈ merged, q ∈ kept ∨ ∃ p ∈ params, q = p.tidy) ∧
      ∀ p ∈ params, ∃ q ∈ merged, q.name.emitted = p.name.emitted := by
  induction params generalizing kept with
  | nil =>
      cases h
      exact ⟨fun _ hq => hq, fun _ hq => Or.inl hq, fun _ hp => nomatch hp⟩
  | cons p rest ih =>
      rw [merge] at h
      split at h
      · obtain ⟨hkeep, hfrom, hname⟩ := ih h
        refine ⟨fun q hq => hkeep q (List.mem_append_left _ hq), fun q hq => ?_, fun q hq => ?_⟩
        · rcases hfrom q hq with hq | ⟨p', hp', rfl⟩
          · rcases List.mem_append.mp hq with hq | hq
            · exact Or.inl hq
            · cases List.mem_singleton.mp hq
              exact Or.inr ⟨p, List.mem_cons_self, rfl⟩
          · exact Or.inr ⟨p', List.mem_cons_of_mem _ hp', rfl⟩
        · rcases List.mem_cons.mp hq with rfl | hq
          · exact ⟨q.tidy, hkeep _ (List.mem_append_right _ List.mem_cons_self), rfl⟩
          · exact hname q hq
      · rename_i k hfind
        split at h
        · obtain ⟨hkeep, hfrom, hname⟩ := ih h
          refine ⟨hkeep, fun q hq => (hfrom q hq).imp_right ?_, fun q hq => ?_⟩
          · rintro ⟨p', hp', rfl⟩
            exact ⟨p', List.mem_cons_of_mem _ hp', rfl⟩
          · rcases List.mem_cons.mp hq with rfl | hq
            · have hsame : k.name.emitted = q.tidy.name.emitted := by
                simpa using List.find?_some hfind
              exact ⟨k, hkeep k (List.mem_of_find?_eq_some hfind), hsame⟩
            · exact hname q hq
        · cases h

theorem within_of_simplify {params simplified : List TypeParameter}
    (h : simplify params = .ok simplified) (hparams : ∀ p ∈ params, p.Within allowed) :
    ∀ p ∈ simplified, p.Within allowed := by
  intro q hq
  rcases (merge_eq_ok h).2.1 q hq with hnil | ⟨p, hp, rfl⟩
  · cases hnil
  · exact (hparams p hp).tidy

theorem exists_name_of_simplify {params simplified : List TypeParameter}
    (h : simplify params = .ok simplified) {p : TypeParameter} (hp : p ∈ params) :
    ∃ q ∈ simplified, q.name.emitted = p.name.emitted :=
  (merge_eq_ok h).2.2 p hp

end TypeParameter

namespace MappedType

variable {V : Expr → Prop} {K : TypeParameter → Prop}

/-- A mapped type with the property of expressions, all its parameters with that of parameters. -/
structure Has (V : Expr → Prop) (K : TypeParameter → Prop) (t : MappedType) : Prop where
  value : V t.value
  typeParams : ∀ p ∈ t.typeParams, K p

theorem has_plain {e : Expr} (h : V e) : (plain e).Has V K := ⟨h, List.forall_mem_nil _⟩

theorem Has.addComment {t : MappedType} (h : t.Has V K) (comment : String) :
    (t.addComment comment).Has V K :=
  ⟨h.value, h.typeParams⟩

theorem Has.mapValue {t : MappedType} (h : t.Has V K) {f : Expr → Expr} (hf : V (f t.value)) :
    (t.mapValue f).Has V K :=
  ⟨hf, h.typeParams⟩

theorem has_combine {parts : List MappedType} {f : List Expr → Expr}
    (hparts : ∀ t ∈ parts, t.Has V K)
    (hf : (∀ e ∈ parts.map MappedType.value, V e) → V (f (parts.map MappedType.value))) :
    (combine parts f).Has V K := by
  refine ⟨hf fun e he => ?_, fun p hp => ?_⟩
  · obtain ⟨t, ht, rfl⟩ := List.mem_map.mp he
    exact (hparts t ht).value
  · obtain ⟨t, ht, hp⟩ := List.mem_flatMap.mp hp
    exact (hparts t ht).typeParams p hp

/-- A mapped type that refers to allowed names only, also in the parameters it mentions. -/
def Within (allowed : Identifier → Prop) : MappedType → Prop :=
  Has (Expr.Within allowed) (TypeParameter.Within allowed)

end MappedType

end TypeBridge
