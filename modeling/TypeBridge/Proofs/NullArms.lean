import TypeBridge.Pass.NullArms
import TypeBridge.Proofs.Walk

/-!
Dropping null and the changes it gets along with. A change that goes through unions arm by arm, and
takes null to null and nothing else to it, may be made before null is dropped or after. The walks of
the three passes that drop null are such changes, and so is making a type readonly, so that they all
commute. The walk that drops null beside maps is the exception among them: it may replace a union by
one of its arms, but only by the arm that dropping null leaves anyway.
-/

namespace TypeBridge

open Function (Commute)

namespace Expr

/-! ### Unions without null -/

/-- The arms of a union. -/
def arms? : Expr → Option (List Expr)
  | .union arms => some arms
  | _ => none

theorem arms?_eq_some_iff {e : Expr} {arms : List Expr} : e.arms? = some arms ↔ e = .union arms := by
  cases e <;> simp [arms?]

/-- What is left of a union: a single arm stands alone. -/
def ofArms : List Expr → Expr
  | [arm] => arm
  | arms => .union arms

theorem dropNull_union (arms : List Expr) :
    (union arms).dropNull = if arms.any isNull then ofArms (arms.filter fun arm => !arm.isNull)
      else union arms := rfl

theorem dropNull_of_arms? {e : Expr} (h : e.arms? = none) : e.dropNull = e := by
  cases e with
  | union arms => cases h
  | _ => rfl

theorem nonNullArm?_of_arms? {e : Expr} (h : e.arms? = none) : e.nonNullArm? = none := by
  cases e with
  | union arms => cases h
  | _ => rfl

@[simp] theorem isNull_null : null.isNull = true := rfl

theorem eq_null_of_isNull {e : Expr} (h : e.isNull = true) : e = .null := by
  cases e with
  | null => rfl
  | _ => cases h

theorem exists_reference_of_isMap {e : Expr} (h : e.isMap = true) :
    ∃ name args, e = .reference name args := by
  cases e with
  | reference name args => exact ⟨name, args, rfl⟩
  | _ => cases h

theorem arms?_of_isMap {e : Expr} (h : e.isMap = true) : e.arms? = none := by
  obtain ⟨name, args, rfl⟩ := exists_reference_of_isMap h
  rfl

theorem nonNullArm?_eq_some {e arm : Expr} (h : e.nonNullArm? = some arm) :
    arm.isNull = false ∧ (e = .union [arm, .null] ∨ e = .union [.null, arm]) := by
  unfold nonNullArm? at h
  split at h
  · split at h
    · rename_i a b ha hb
      cases h
      exact ⟨hb, Or.inr (by rw [eq_null_of_isNull ha])⟩
    · rename_i a b ha hb
      cases h
      exact ⟨ha, Or.inl (by rw [eq_null_of_isNull hb])⟩
    · cases h
  · cases h

theorem mem_children_of_nonNullArm? {e arm : Expr} (h : e.nonNullArm? = some arm) :
    arm ∈ e.children := by
  obtain ⟨-, rfl | rfl⟩ := nonNullArm?_eq_some h
  all_goals simp [children]

theorem nonNullArm?_of_all {arms : List Expr} (h : arms.any isNull = false) :
    (union arms).nonNullArm? = none := by
  rw [Option.eq_none_iff_forall_ne_some]
  intro arm harm
  rcases (nonNullArm?_eq_some harm).2 with heq | heq
  all_goals
    cases heq
    simp at h

theorem dropNull_of_nonNullArm? {e arm : Expr} (h : e.nonNullArm? = some arm) :
    e.dropNull = arm := by
  obtain ⟨hnull, rfl | rfl⟩ := nonNullArm?_eq_some h
  all_goals simp [dropNull_union, hnull, ofArms]

/-- The other arm of a union of two with null, and any other type as it is. -/
def withoutNull (e : Expr) : Expr := e.nonNullArm?.getD e

theorem notNullElements_array (elem : Expr) :
    (array elem).notNullElements = .array elem.withoutNull := rfl

theorem notNullMap_eq_self {e : Expr} (h : e.nonNullArm? = none) : e.notNullMap = e := by
  rw [notNullMap, h]

theorem notNullMap_cases (e : Expr) :
    e.notNullMap = e ∨ e.nonNullArm? = some e.notNullMap ∧ e.notNullMap.isMap = true := by
  rw [notNullMap]
  cases h : e.nonNullArm? with
  | none => exact Or.inl rfl
  | some arm =>
      cases hmap : arm.isMap with
      | false => exact Or.inl (by simp [hmap])
      | true => exact Or.inr (by simp [hmap])

theorem isNull_notNullMap (e : Expr) : e.notNullMap.isNull = e.isNull := by
  rcases e.notNullMap_cases with h | ⟨harm, -⟩
  · rw [h]
  · obtain ⟨hnull, heq | heq⟩ := nonNullArm?_eq_some harm
    all_goals
      rw [hnull, heq]
      rfl

/-- Dropping null beside a map is dropping null. -/
theorem dropNull_notNullMap (e : Expr) : e.notNullMap.dropNull = e.dropNull := by
  rcases e.notNullMap_cases with h | ⟨harm, hmap⟩
  · rw [h]
  · rw [dropNull_of_nonNullArm? harm, dropNull_of_arms? (arms?_of_isMap hmap)]

theorem withoutNull_notNullMap (e : Expr) : e.notNullMap.withoutNull = e.withoutNull := by
  rcases e.notNullMap_cases with h | ⟨harm, hmap⟩
  · rw [h]
  · rw [withoutNull, withoutNull, harm, nonNullArm?_of_arms? (arms?_of_isMap hmap)]
    rfl

/-! ### Changes that keep null apart -/

/-- A change that makes nothing null that was not, and goes through unions arm by arm, except that it
may leave a map that stands beside null without it. -/
structure NullSafe (f : Expr → Expr) : Prop where
  isNull : ∀ e, (f e).isNull = e.isNull
  other : ∀ e, e.arms? = none → (f e).arms? = none
  union : ∀ arms, f (.union arms) = .union (arms.map f) ∨
    f (.union arms) = notNullMap (.union (arms.map f))

namespace NullSafe

variable {f : Expr → Expr}

theorem any_isNull (h : NullSafe f) (arms : List Expr) :
    (arms.map f).any Expr.isNull = arms.any Expr.isNull := by
  simp [List.any_map, Function.comp_def, h.isNull]

theorem filter_isNull (h : NullSafe f) (arms : List Expr) :
    (arms.map f).filter (fun arm => !arm.isNull) = (arms.filter fun arm => !arm.isNull).map f := by
  simp [List.filter_map, Function.comp_def, h.isNull]

theorem nonNullArm?_map (h : NullSafe f) (arms : List Expr) :
    (Expr.union (arms.map f)).nonNullArm? = (Expr.union arms).nonNullArm?.map f := by
  match arms with
  | [] => rfl
  | [a] => rfl
  | [a, b] =>
      have ha := h.isNull a
      have hb := h.isNull b
      cases hnull : a.isNull <;> cases hnull' : b.isNull <;>
        simp [nonNullArm?, ha, hb, hnull, hnull']
  | a :: b :: c :: rest => rfl

/-- A union without null is changed arm by arm. -/
theorem union_of_nonNull (h : NullSafe f) {arms : List Expr} (hnull : arms.any Expr.isNull = false) :
    f (.union arms) = .union (arms.map f) := by
  rcases h.union arms with hunion | hunion
  · exact hunion
  · rw [hunion]
    exact notNullMap_eq_self (nonNullArm?_of_all (by rw [h.any_isNull, hnull]))

theorem ofArms (h : NullSafe f) {arms : List Expr} (hnull : arms.any Expr.isNull = false) :
    f (ofArms arms) = Expr.ofArms (arms.map f) := by
  match arms with
  | [] => exact h.union_of_nonNull hnull
  | [arm] => rfl
  | a :: b :: rest => exact h.union_of_nonNull hnull

theorem dropNull_commute (h : NullSafe f) : Commute f dropNull := by
  intro e
  cases harms : e.arms? with
  | none => rw [dropNull_of_arms? harms, dropNull_of_arms? (h.other e harms)]
  | some arms =>
      rw [arms?_eq_some_iff.mp harms]
      have hafter : (f (.union arms)).dropNull = (Expr.union (arms.map f)).dropNull := by
        rcases h.union arms with hunion | hunion
        · rw [hunion]
        · rw [hunion, dropNull_notNullMap]
      rw [hafter, dropNull_union, dropNull_union, h.any_isNull, h.filter_isNull]
      by_cases hnull : arms.any Expr.isNull = true
      · rw [if_pos hnull, if_pos hnull]
        exact h.ofArms (by simp [List.any_filter])
      · rw [if_neg hnull, if_neg hnull]
        exact h.union_of_nonNull (Bool.not_eq_true _ ▸ hnull)

theorem withoutNull_commute (h : NullSafe f) : Commute f withoutNull := by
  intro e
  cases harms : e.arms? with
  | none =>
      rw [withoutNull, withoutNull, nonNullArm?_of_arms? harms,
        nonNullArm?_of_arms? (h.other e harms)]
      rfl
  | some arms =>
      rw [arms?_eq_some_iff.mp harms]
      have hafter : (f (.union arms)).withoutNull = (Expr.union (arms.map f)).withoutNull := by
        rcases h.union arms with hunion | hunion
        · rw [hunion]
        · rw [hunion, withoutNull_notNullMap]
      rw [hafter, withoutNull, withoutNull, h.nonNullArm?_map]
      cases harm : (Expr.union arms).nonNullArm? with
      | some arm => rfl
      | none =>
          have hself : (Expr.union (arms.map f)).notNullMap = .union (arms.map f) :=
            notNullMap_eq_self (by rw [h.nonNullArm?_map, harm]; rfl)
          rcases h.union arms with hunion | hunion
          · exact hunion
          · exact hunion.trans hself

end NullSafe

/-- A change that goes through all unions arm by arm, and keeps null and maps what they are. -/
structure Armwise (f : Expr → Expr) : Prop where
  isNull : ∀ e, (f e).isNull = e.isNull
  isMap : ∀ e, (f e).isMap = e.isMap
  arms : ∀ e, (f e).arms? = e.arms?.map (List.map f)

namespace Armwise

variable {f : Expr → Expr}

theorem union (h : Armwise f) (arms : List Expr) : f (.union arms) = .union (arms.map f) :=
  arms?_eq_some_iff.mp (h.arms (.union arms))

theorem nullSafe (h : Armwise f) : NullSafe f where
  isNull := h.isNull
  other e he := by rw [h.arms, he]; rfl
  union arms := Or.inl (h.union arms)

theorem notNullMap_commute (h : Armwise f) : Commute f notNullMap := by
  intro e
  have harm : (f e).nonNullArm? = e.nonNullArm?.map f := by
    cases harms : e.arms? with
    | none =>
        rw [nonNullArm?_of_arms? harms, nonNullArm?_of_arms? (h.nullSafe.other e harms)]
        rfl
    | some arms => rw [arms?_eq_some_iff.mp harms, h.union, h.nullSafe.nonNullArm?_map]
  rw [notNullMap, notNullMap, harm]
  cases e.nonNullArm? with
  | none => rfl
  | some arm =>
      simp only [Option.map_some, h.isMap]
      split <;> rfl

end Armwise

/-! ### The walks -/

theorem isNull_mapChildren (f : Expr → Expr) (e : Expr) : (e.mapChildren f).isNull = e.isNull := by
  cases e <;> rfl

theorem isMap_mapChildren (f : Expr → Expr) (e : Expr) : (e.mapChildren f).isMap = e.isMap := by
  cases e <;> rfl

theorem arms?_mapChildren (f : Expr → Expr) (e : Expr) :
    (e.mapChildren f).arms? = e.arms?.map (List.map f) := by
  cases e <;> rfl

/-- A walk whose steps leave unions alone, and null and maps what they are. -/
theorem armwise_mapSubterms {f : Expr → Expr} (hnull : ∀ e, (f e).isNull = e.isNull)
    (hmap : ∀ e, (f e).isMap = e.isMap) (harms : ∀ e, (f e).arms? = e.arms?) :
    Armwise (mapSubterms f) where
  isNull e := by rw [mapSubterms_eq, hnull, isNull_mapChildren]
  isMap e := by rw [mapSubterms_eq, hmap, isMap_mapChildren]
  arms e := by rw [mapSubterms_eq, harms, arms?_mapChildren]

theorem armwise_simplifyMembers : Armwise (mapSubterms simplifyMembers) := by
  apply armwise_mapSubterms <;> intro e <;> cases e <;> rfl

theorem armwise_notNullElements : Armwise (mapSubterms notNullElements) := by
  apply armwise_mapSubterms <;> intro e <;> cases e <;> rfl

theorem nullSafe_notNullMap : NullSafe (mapSubterms notNullMap) where
  isNull e := by rw [mapSubterms_eq, isNull_notNullMap, isNull_mapChildren]
  other e he := by
    have hnone : (e.mapChildren (mapSubterms notNullMap)).arms? = none := by
      rw [arms?_mapChildren, he]
      rfl
    rw [mapSubterms_eq, notNullMap_eq_self (nonNullArm?_of_arms? hnone), hnone]
  union arms := Or.inr (mapSubterms_eq _ _)

/-- A walk commutes with a step if its own steps do, and what it does to the children too. -/
theorem mapSubterms_commute_step {f g : Expr → Expr} (hstep : Commute f g)
    (hchildren : Commute (mapChildren (mapSubterms f)) g) : Commute (mapSubterms f) g := by
  intro e
  calc mapSubterms f (g e) = f (mapChildren (mapSubterms f) (g e)) := mapSubterms_eq f (g e)
    _ = f (g (mapChildren (mapSubterms f) e)) := by rw [hchildren]
    _ = g (f (mapChildren (mapSubterms f) e)) := hstep _
    _ = g (mapSubterms f e) := by rw [mapSubterms_eq f e]

theorem mapChildren_commute_notNullElements {f : Expr → Expr} (h : Commute f withoutNull) :
    Commute (mapChildren f) notNullElements := by
  intro e
  cases e with
  | array elem => simp only [notNullElements_array, mapChildren, h elem]
  | _ => rfl

theorem simplifyOptional_mapType {f : Expr → Expr} (h : Commute f dropNull) :
    Commute (Property.mapType f) Property.simplifyOptional := by
  intro p
  unfold Property.simplifyOptional Property.mapType
  cases hoptional : p.optional <;> simp [hoptional, h p.type]

theorem mapChildren_commute_simplifyMembers {f : Expr → Expr} (h : Commute f dropNull) :
    Commute (mapChildren f) simplifyMembers := by
  intro e
  cases e with
  | typeLiteral members =>
      simp only [simplifyMembers, mapChildren, List.map_map, (simplifyOptional_mapType h).comp_eq]
  | _ => rfl

/-- Dropping null beside maps commutes with what touches neither unions nor references. -/
theorem notNullMap_commute_step {g : Expr → Expr} (hunion : ∀ arms, g (.union arms) = .union arms)
    (hreference : ∀ name args, g (.reference name args) = .reference name args)
    (harms : ∀ e, (g e).arms? = e.arms?) : Commute notNullMap g := by
  intro e
  cases h : e.arms? with
  | none =>
      have hself := notNullMap_eq_self (nonNullArm?_of_arms? h)
      rw [hself]
      exact notNullMap_eq_self (nonNullArm?_of_arms? ((harms e).trans h))
  | some arms =>
      rw [arms?_eq_some_iff.mp h, hunion]
      rcases (union arms).notNullMap_cases with hself | ⟨-, hmap⟩
      · rw [hself, hunion]
      · obtain ⟨name, args, hmap⟩ := exists_reference_of_isMap hmap
        rw [hmap, hreference]

theorem notNullMap_commute_notNullElements : Commute notNullMap notNullElements :=
  notNullMap_commute_step (fun _ => rfl) (fun _ _ => rfl) fun e => by cases e <;> rfl

theorem notNullMap_commute_simplifyMembers : Commute notNullMap simplifyMembers :=
  notNullMap_commute_step (fun _ => rfl) (fun _ _ => rfl) fun e => by cases e <;> rfl

theorem notNullElements_commute_simplifyMembers : Commute notNullElements simplifyMembers := by
  intro e
  cases e <;> rfl

/-- Dropping null beside maps and in the elements of arrays. -/
theorem walks_notNullMap_notNullElements :
    Commute (mapSubterms notNullMap) (mapSubterms notNullElements) :=
  mapSubterms_commute
    (mapSubterms_commute_step notNullMap_commute_notNullElements
      (mapChildren_commute_notNullElements nullSafe_notNullMap.withoutNull_commute))
    armwise_notNullElements.notNullMap_commute notNullMap_commute_notNullElements

/-- Dropping null beside maps and in optional members. -/
theorem walks_notNullMap_simplifyMembers :
    Commute (mapSubterms notNullMap) (mapSubterms simplifyMembers) :=
  mapSubterms_commute
    (mapSubterms_commute_step notNullMap_commute_simplifyMembers
      (mapChildren_commute_simplifyMembers nullSafe_notNullMap.dropNull_commute))
    armwise_simplifyMembers.notNullMap_commute notNullMap_commute_simplifyMembers

/-- Dropping null in the elements of arrays and in optional members. -/
theorem walks_notNullElements_simplifyMembers :
    Commute (mapSubterms notNullElements) (mapSubterms simplifyMembers) :=
  mapSubterms_commute
    (mapSubterms_commute_step notNullElements_commute_simplifyMembers
      (mapChildren_commute_simplifyMembers armwise_notNullElements.nullSafe.dropNull_commute))
    (mapSubterms_commute_step notNullElements_commute_simplifyMembers.symm
      (mapChildren_commute_notNullElements armwise_simplifyMembers.nullSafe.withoutNull_commute))
    notNullElements_commute_simplifyMembers

end Expr

end TypeBridge
