import Mathlib.Algebra.Order.BigOperators.Group.List
import Mathlib.Algebra.Order.Group.Nat
import TypeBridge.Proofs.EmptyUnions

/-!
How much null is removed. The passes that drop null from optional members and from the elements of
arrays take one layer off the types in these places: what was under the layer stays, also when it is
a union with null again. So a graph is free of null in these places after as many runs as its types
have layers there, after one run if none has two, and from then on a run changes nothing.
-/

namespace TypeBridge

open Function (Commute)

namespace Expr

/-! ### Layers -/

/-- A kind of layer around a type: which types have one, and what is left when it is taken off. -/
structure Layer where
  covers : Expr → Bool
  strip : Expr → Expr
  sizeOf_strip_lt : ∀ e, covers e = true → sizeOf (strip e) < sizeOf e
  strip_eq_self : ∀ e, covers e = false → strip e = e

namespace Layer

/-- How many layers lie around a type, one inside another. -/
def count (layer : Layer) (e : Expr) : Nat :=
  if _h : layer.covers e = true then layer.count (layer.strip e) + 1 else 0
termination_by sizeOf e
decreasing_by exact layer.sizeOf_strip_lt e _h

variable {layer : Layer} {e : Expr}

theorem count_of_covers (h : layer.covers e = true) :
    layer.count e = layer.count (layer.strip e) + 1 := by
  rw [count, dif_pos h]

theorem count_eq_zero_iff : layer.count e = 0 ↔ layer.covers e = false := by
  rw [count]
  cases h : layer.covers e <;> simp

theorem count_strip_le_iff {n : Nat} :
    layer.count (layer.strip e) ≤ n ↔ layer.count e ≤ n + 1 := by
  cases h : layer.covers e with
  | true => rw [count_of_covers h, Nat.add_le_add_iff_right]
  | false =>
      rw [layer.strip_eq_self e h, count_eq_zero_iff.mpr h]
      simp

/-- A change under which layers stay layers keeps their number. -/
theorem count_map {f : Expr → Expr} (hcovers : ∀ e, layer.covers (f e) = layer.covers e)
    (hstrip : Commute f layer.strip) (e : Expr) : layer.count (f e) = layer.count e := by
  fun_induction layer.count e with
  | case1 e h ih => rw [count_of_covers ((hcovers e).trans h), ← hstrip e, ih]
  | case2 e h => rw [count_eq_zero_iff, hcovers, Bool.eq_false_iff.mpr h]

end Layer

/-! ### Places for types -/

/-- The types in certain places of an expression, at every depth. -/
def inPlaces (places : Expr → List Expr) (e : Expr) : List Expr := e.subterms.flatMap places

theorem forall_inPlaces_iff {places : Expr → List Expr} {P : Expr → Prop} {e : Expr} :
    (∀ t ∈ e.inPlaces places, P t) ↔
      (∀ child ∈ e.children, ∀ t ∈ child.inPlaces places, P t) ∧ ∀ t ∈ places e, P t := by
  simp only [inPlaces, List.forall_mem_flatMap]
  exact forall_subterms_iff

section Unions

variable {places : Expr → List Expr} {P : Expr → Prop}

theorem forall_inPlaces_union_iff (hunion : ∀ arms, places (.union arms) = []) {arms : List Expr} :
    (∀ t ∈ (union arms).inPlaces places, P t) ↔ ∀ arm ∈ arms, ∀ t ∈ arm.inPlaces places, P t := by
  rw [forall_inPlaces_iff, hunion]
  simp [children]

theorem forall_inPlaces_ofArms_iff (hunion : ∀ arms, places (.union arms) = []) {arms : List Expr} :
    (∀ t ∈ (ofArms arms).inPlaces places, P t) ↔ ∀ arm ∈ arms, ∀ t ∈ arm.inPlaces places, P t := by
  match arms with
  | [arm] => simp [ofArms]
  | [] => exact forall_inPlaces_union_iff hunion
  | a :: b :: rest => exact forall_inPlaces_union_iff hunion

theorem forall_inPlaces_null (hnull : places .null = []) : ∀ t ∈ null.inPlaces places, P t := by
  rw [forall_inPlaces_iff, hnull]
  simp [children]

/-- Dropping null drops none of the places inside a type. -/
theorem forall_inPlaces_dropNull_iff (hnull : places .null = [])
    (hunion : ∀ arms, places (.union arms) = []) (e : Expr) :
    (∀ t ∈ e.dropNull.inPlaces places, P t) ↔ ∀ t ∈ e.inPlaces places, P t := by
  cases e with
  | union arms =>
      have hkept : (∀ arm ∈ arms.filter fun arm => !arm.isNull, ∀ t ∈ arm.inPlaces places, P t) ↔
          ∀ arm ∈ arms, ∀ t ∈ arm.inPlaces places, P t := by
        refine ⟨fun h arm harm => ?_, fun h arm harm => h arm (List.mem_filter.mp harm).1⟩
        cases hself : arm.isNull with
        | true => exact eq_null_of_isNull hself ▸ forall_inPlaces_null hnull
        | false => exact h arm (List.mem_filter.mpr ⟨harm, by rw [hself]; rfl⟩)
      rw [dropNull_union, forall_inPlaces_union_iff hunion, ← hkept]
      split
      · exact forall_inPlaces_ofArms_iff hunion
      · rw [forall_inPlaces_union_iff hunion, hkept]
  | _ => exact Iff.rfl

end Unions

/-- A step of a walk that takes one layer off the types in certain places. A layer has no such places
of its own, and the walk leaves the layers of the types that it goes through. -/
structure Strips (layer : Layer) (places : Expr → List Expr) (step : Expr → Expr) : Prop where
  places_mapChildren : ∀ f e, places (e.mapChildren f) = (places e).map f
  places_step : ∀ e, places (step e) = (places e).map layer.strip
  children_step : ∀ {P : Expr → Prop}, (∀ e, P (layer.strip e) ↔ P e) →
    ∀ e, (∀ child ∈ (step e).children, P child) ↔ ∀ child ∈ e.children, P child
  step_eq_self : ∀ e, (∀ t ∈ places e, layer.covers t = false) → step e = e
  inPlaces_strip : ∀ {P : Expr → Prop} (e : Expr),
    (∀ t ∈ (layer.strip e).inPlaces places, P t) ↔ ∀ t ∈ e.inPlaces places, P t
  count_walk : ∀ e, layer.count (e.mapSubterms step) = layer.count e

namespace Strips

variable {layer : Layer} {places : Expr → List Expr} {step : Expr → Expr} {e : Expr} {n : Nat}

/-- After the walk, the types in the places have a layer less. -/
theorem count_le_walk_iff (h : Strips layer places step) :
    (∀ t ∈ (e.mapSubterms step).inPlaces places, layer.count t ≤ n) ↔
      ∀ t ∈ e.inPlaces places, layer.count t ≤ n + 1 := by
  induction e using children_induction with
  | inherited e ih =>
      rw [mapSubterms_eq, forall_inPlaces_iff, h.children_step h.inPlaces_strip, h.places_step,
        h.places_mapChildren, children_mapChildren, forall_inPlaces_iff]
      simp only [List.forall_mem_map, Layer.count_strip_le_iff, h.count_walk]
      exact and_congr_left' (forall₂_congr ih)

theorem walk_eq_self (h : Strips layer places step)
    (hnone : ∀ t ∈ e.inPlaces places, layer.covers t = false) : e.mapSubterms step = e :=
  mapSubterms_eq_self fun t ht => h.step_eq_self t fun x hx =>
    hnone x (List.mem_flatMap.mpr ⟨t, ht, hx⟩)

end Strips

/-! ### Optional members -/

/-- A union with a null arm. -/
def isNullable : Expr → Bool
  | .union arms => arms.any isNull
  | _ => false

theorem isNullable_eq_false_of_arms? {e : Expr} (h : e.arms? = none) : e.isNullable = false := by
  cases e with
  | union arms => cases h
  | _ => rfl

theorem dropNull_eq_self {e : Expr} (h : e.isNullable = false) : e.dropNull = e := by
  cases e with
  | union arms =>
      have hnone : arms.any isNull = false := h
      rw [dropNull_union, hnone, if_neg Bool.false_ne_true]
  | _ => rfl

theorem sizeOf_filter_le (keep : Expr → Bool) (es : List Expr) :
    sizeOf (es.filter keep) ≤ sizeOf es := by
  induction es with
  | nil => exact Nat.le_refl _
  | cons e rest ih =>
      rw [List.filter_cons]
      split <;> simp only [List.cons.sizeOf_spec] <;> omega

theorem sizeOf_filter_lt {keep : Expr → Bool} {es : List Expr} (h : ∃ e ∈ es, keep e = false) :
    sizeOf (es.filter keep) < sizeOf es := by
  induction es with
  | nil => simp at h
  | cons e rest ih =>
      rw [List.filter_cons]
      split
      · rename_i hkeep
        obtain ⟨dropped, hmem, hdropped⟩ := h
        rcases List.mem_cons.mp hmem with rfl | hrest
        · rw [hdropped] at hkeep
          cases hkeep
        · have := ih ⟨dropped, hrest, hdropped⟩
          simp only [List.cons.sizeOf_spec]
          omega
      · have := sizeOf_filter_le keep rest
        simp only [List.cons.sizeOf_spec]
        omega

theorem sizeOf_dropNull_lt {e : Expr} (h : e.isNullable = true) : sizeOf e.dropNull < sizeOf e := by
  cases e with
  | union arms =>
      have hnull : arms.any isNull = true := h
      rw [dropNull_union, if_pos hnull]
      have hlt : sizeOf (arms.filter fun arm => !arm.isNull) < sizeOf arms := by
        refine sizeOf_filter_lt ?_
        simpa using List.any_eq_true.mp hnull
      generalize arms.filter (fun arm => !arm.isNull) = rest at hlt
      match rest with
      | [arm] =>
          simp only [ofArms, List.cons.sizeOf_spec, union.sizeOf_spec] at hlt ⊢
          omega
      | [] =>
          simp only [ofArms, union.sizeOf_spec]
          omega
      | a :: b :: rest =>
          simp only [ofArms, union.sizeOf_spec]
          omega
  | _ => cases h

/-- Null arms of a union, together with the union if one other arm is left. -/
def nullArms : Layer where
  covers := isNullable
  strip := dropNull
  sizeOf_strip_lt _ := sizeOf_dropNull_lt
  strip_eq_self _ := dropNull_eq_self

theorem Armwise.isNullable {f : Expr → Expr} (h : Armwise f) (e : Expr) :
    (f e).isNullable = e.isNullable := by
  cases harms : e.arms? with
  | none =>
      rw [isNullable_eq_false_of_arms? harms, isNullable_eq_false_of_arms? (h.nullSafe.other e harms)]
  | some arms =>
      rw [arms?_eq_some_iff.mp harms, h.union]
      exact h.nullSafe.any_isNull arms

end Expr

/-- The types of the optional ones among some members. -/
def Property.optionalTypes (members : List Property) : List Expr :=
  (members.filter PropertyOf.optional).map PropertyOf.type

theorem Property.forall_optionalTypes_iff {P : Expr → Prop} {members : List Property} :
    (∀ t ∈ Property.optionalTypes members, P t) ↔ ∀ p ∈ members, p.optional = true → P p.type := by
  simp only [optionalTypes, List.forall_mem_map, List.mem_filter, and_imp]

namespace Expr

/-- The types of the optional members of an object type. -/
def optionalMembers (e : Expr) : List Expr := Property.optionalTypes e.members

theorem optionalTypes_mapType (f : Expr → Expr) (members : List Property) :
    Property.optionalTypes (members.map (Property.mapType f)) =
      (Property.optionalTypes members).map f := by
  simp [Property.optionalTypes, List.filter_map, Function.comp_def, Property.mapType]

theorem optionalTypes_simplifyOptional (members : List Property) :
    Property.optionalTypes (members.map Property.simplifyOptional) =
      (Property.optionalTypes members).map dropNull := by
  induction members with
  | nil => rfl
  | cons p rest ih =>
      cases hoptional : p.optional <;>
        simpa [Property.optionalTypes, Property.simplifyOptional, hoptional] using ih

theorem simplifyOptional_eq_self {members : List Property}
    (h : ∀ t ∈ Property.optionalTypes members, t.isNullable = false) :
    members.map Property.simplifyOptional = members := by
  refine map_eq_self fun p hp => ?_
  by_cases hoptional : p.optional = true
  · have htype := h p.type (List.mem_map_of_mem (List.mem_filter.mpr ⟨hp, hoptional⟩))
    rw [Property.simplifyOptional, if_pos hoptional, dropNull_eq_self htype]
  · rw [Property.simplifyOptional, if_neg hoptional]

theorem strips_simplifyMembers : Strips nullArms optionalMembers simplifyMembers where
  places_mapChildren f e := by
    rw [optionalMembers, members_mapChildren, optionalTypes_mapType]
    rfl
  places_step e := by
    cases e with
    | typeLiteral members => exact optionalTypes_simplifyOptional members
    | _ => rfl
  children_step hP e := by
    cases e with
    | typeLiteral members =>
        simp only [simplifyMembers, children, List.forall_mem_map]
        refine forall₂_congr fun p _ => ?_
        unfold Property.simplifyOptional
        cases p.optional with
        | true => exact hP p.type
        | false => exact Iff.rfl
    | _ => exact Iff.rfl
  step_eq_self e h := by
    cases e with
    | typeLiteral members => exact congrArg typeLiteral (simplifyOptional_eq_self h)
    | _ => rfl
  inPlaces_strip := forall_inPlaces_dropNull_iff rfl fun _ => rfl
  count_walk := Layer.count_map armwise_simplifyMembers.isNullable
    armwise_simplifyMembers.nullSafe.dropNull_commute

/-! ### Elements of arrays -/

/-- A union of null and one other arm. -/
def isNullablePair : Expr → Bool
  | .union [a, b] => a.isNull != b.isNull
  | _ => false

theorem isNullablePair_eq_isSome (e : Expr) : e.isNullablePair = e.nonNullArm?.isSome := by
  cases e with
  | union arms =>
      match arms with
      | [a, b] =>
          cases ha : a.isNull <;> cases hb : b.isNull <;> simp [isNullablePair, nonNullArm?, ha, hb]
      | [] => rfl
      | [a] => rfl
      | a :: b :: c :: rest => rfl
  | _ => rfl

theorem exists_of_isNullablePair {e : Expr} (h : e.isNullablePair = true) :
    ∃ arm ∈ e.children, e.withoutNull = arm := by
  obtain ⟨arm, harm⟩ := Option.isSome_iff_exists.mp (e.isNullablePair_eq_isSome ▸ h)
  exact ⟨arm, mem_children_of_nonNullArm? harm, by rw [withoutNull, harm]; rfl⟩

theorem withoutNull_eq_self {e : Expr} (h : e.isNullablePair = false) : e.withoutNull = e := by
  rw [isNullablePair_eq_isSome, Option.isSome_eq_false_iff, Option.isNone_iff_eq_none] at h
  rw [withoutNull, h]
  rfl

/-- Null beside one other arm, together with their union. -/
def nullBeside : Layer where
  covers := isNullablePair
  strip := withoutNull
  sizeOf_strip_lt e h := by
    obtain ⟨arm, hmem, harm⟩ := exists_of_isNullablePair h
    exact harm ▸ sizeOf_lt_of_mem_children hmem
  strip_eq_self _ := withoutNull_eq_self

/-- Taking away null beside one other arm is dropping null. -/
theorem withoutNull_cases (e : Expr) : e.withoutNull = e ∨ e.withoutNull = e.dropNull := by
  rw [withoutNull]
  cases h : e.nonNullArm? with
  | none => exact .inl rfl
  | some arm => exact .inr (dropNull_of_nonNullArm? h).symm

theorem Armwise.isNullablePair {f : Expr → Expr} (h : Armwise f) (e : Expr) :
    (f e).isNullablePair = e.isNullablePair := by
  cases harms : e.arms? with
  | none =>
      rw [isNullablePair_eq_isSome, isNullablePair_eq_isSome, nonNullArm?_of_arms? harms,
        nonNullArm?_of_arms? (h.nullSafe.other e harms)]
  | some arms =>
      rw [isNullablePair_eq_isSome, isNullablePair_eq_isSome, arms?_eq_some_iff.mp harms, h.union,
        h.nullSafe.nonNullArm?_map, Option.isSome_map]

/-- The type of the elements of an array. -/
def elements : Expr → List Expr
  | .array elem => [elem]
  | _ => []

theorem strips_notNullElements : Strips nullBeside elements notNullElements where
  places_mapChildren f e := by cases e <;> rfl
  places_step e := by cases e <;> rfl
  children_step hP e := by
    cases e with
    | array elem =>
        simp only [notNullElements_array, children, List.forall_mem_singleton]
        exact hP elem
    | _ => exact Iff.rfl
  step_eq_self e h := by
    cases e with
    | array elem =>
        rw [notNullElements_array, withoutNull_eq_self (h elem (List.mem_singleton_self elem))]
    | _ => rfl
  inPlaces_strip {P} e := by
    show (∀ t ∈ e.withoutNull.inPlaces elements, P t) ↔ _
    rcases e.withoutNull_cases with hself | hdrop
    · rw [hself]
    · rw [hdrop]
      exact forall_inPlaces_dropNull_iff rfl (fun _ => rfl) e
  count_walk := Layer.count_map armwise_notNullElements.isNullablePair
    armwise_notNullElements.nullSafe.withoutNull_commute

end Expr

/-! ### Declarations -/

namespace Form

/-- The types in certain places of a declaration, at every depth. -/
def inPlaces (places : Expr → List Expr) (form : Form) : List Expr := form.subterms.flatMap places

/-- The types of the elements of all arrays. -/
def elementTypes (form : Form) : List Expr := form.inPlaces Expr.elements

/-- The types of all optional members: fields of a record, and members of object types. -/
def optionalTypes (form : Form) : List Expr :=
  Property.optionalTypes form.fields ++ form.inPlaces Expr.optionalMembers

/-- A change of declarations that takes one layer off certain types. -/
structure Strips (layer : Expr.Layer) (types : Form → List Expr) (change : Form → Form) : Prop where
  count_le_iff : ∀ {n form}, (∀ t ∈ types (change form), layer.count t ≤ n) ↔
    ∀ t ∈ types form, layer.count t ≤ n + 1
  change_eq_self : ∀ {form}, (∀ t ∈ types form, layer.covers t = false) → change form = form

variable {form : Form}

theorem forall_inPlaces_iff {places : Expr → List Expr} {P : Expr → Prop} :
    (∀ t ∈ form.inPlaces places, P t) ↔ ∀ e ∈ form.exprs, ∀ t ∈ e.inPlaces places, P t := by
  simp only [inPlaces, Expr.inPlaces, List.forall_mem_flatMap]
  exact forall_subterms_iff

/-- A walk through the expressions of a declaration does what its steps do. -/
theorem strips_mapSubterms {layer : Expr.Layer} {places : Expr → List Expr} {step : Expr → Expr}
    (h : Expr.Strips layer places step) : Strips layer (inPlaces places) (mapSubterms step) where
  count_le_iff := by
    intro n form
    rw [forall_inPlaces_iff, forall_inPlaces_iff, mapSubterms, exprs_mapExprs, List.forall_mem_map]
    exact forall₂_congr fun e _ => h.count_le_walk_iff
  change_eq_self := by
    intro form hnone
    exact mapExprs_eq_self fun e he => h.walk_eq_self (forall_inPlaces_iff.mp hnone e he)

theorem forall_optionalTypes_iff {P : Expr → Prop} : (∀ t ∈ form.optionalTypes, P t) ↔
    form.AllMembers fun p => p.optional = true → P p.type := by
  simp only [optionalTypes, inPlaces, Expr.optionalMembers, List.forall_mem_append,
    List.forall_mem_flatMap, Property.forall_optionalTypes_iff, AllMembers]

/-- A record is looked at in its interface form, where its fields are members. -/
theorem forall_optionalTypes_interfaceToType_iff {P : Expr → Prop} :
    (∀ t ∈ form.interfaceToType.inPlaces Expr.optionalMembers, P t) ↔
      ∀ t ∈ form.optionalTypes, P t := by
  rw [forall_optionalTypes_iff, ← allMembers_interfaceToType_iff, ← forall_optionalTypes_iff,
    optionalTypes, fields_interfaceToType]
  rfl

theorem strips_simplify : Strips Expr.nullArms optionalTypes
    fun form => form.simplifyFields.mapSubterms Expr.simplifyMembers where
  count_le_iff := by
    intro n form
    rw [← forall_optionalTypes_interfaceToType_iff, ← forall_optionalTypes_interfaceToType_iff,
      interfaceToType_simplify]
    exact (strips_mapSubterms Expr.strips_simplifyMembers).count_le_iff
  change_eq_self := by
    intro form hnone
    obtain ⟨hfields, hmembers⟩ := List.forall_mem_append.mp hnone
    have hself : form.simplifyFields = form := by
      cases form with
      | record name params heritage fields =>
          exact congrArg (record name params heritage) (Expr.simplifyOptional_eq_self hfields)
      | _ => rfl
    rw [hself]
    exact (strips_mapSubterms Expr.strips_simplifyMembers).change_eq_self hmembers

end Form

/-! ### Passes -/

namespace Graph

/-- Certain types of all declarations. -/
def collect (types : Form → List Expr) (g : Graph) : List Expr :=
  g.nodes.values.flatMap fun d => types d.form

/-- The types of all optional members of a graph, in records and in object types. -/
def optionalTypes (g : Graph) : List Expr := g.collect Form.optionalTypes

/-- The types of the elements of all arrays of a graph. -/
def elementTypes (g : Graph) : List Expr := g.collect Form.elementTypes

theorem forall_collect_iff {types : Form → List Expr} {P : Expr → Prop} {g : Graph} :
    (∀ t ∈ g.collect types, P t) ↔ ∀ d ∈ g.nodes.values, ∀ t ∈ types d.form, P t :=
  List.forall_mem_flatMap

end Graph

namespace Pass.ChangesBy

variable {pass : Pass} {layer : Expr.Layer} {types : Form → List Expr} {change : Form → Form}

theorem count_le_run_iff (h : pass.ChangesBy (Declaration.mapForm change))
    (hstrips : Form.Strips layer types change) {n : Nat} {g : Graph} :
    (∀ t ∈ (pass.run g).state.collect types, layer.count t ≤ n) ↔
      ∀ t ∈ g.collect types, layer.count t ≤ n + 1 := by
  rw [h g, Graph.forall_collect_iff, Graph.forall_collect_iff]
  show (∀ d ∈ (g.mapNodes fun _ => Declaration.mapForm change).nodes.values, _) ↔ _
  rw [Graph.values_mapNodes, List.forall_mem_map]
  exact forall₂_congr fun d _ => hstrips.count_le_iff

/-- A run changes nothing exactly where there is no layer to take off. If it changed nothing although
there was one, each type would have as many layers as one likes. -/
theorem run_eq_self_iff (h : pass.ChangesBy (Declaration.mapForm change))
    (hstrips : Form.Strips layer types change) {g : Graph} :
    (pass.run g).state = g ↔ ∀ t ∈ g.collect types, layer.covers t = false := by
  simp only [← Expr.Layer.count_eq_zero_iff, ← Nat.le_zero_eq]
  constructor
  · intro hself
    have hfewer : ∀ n, (∀ t ∈ g.collect types, layer.count t ≤ n) →
        ∀ t ∈ g.collect types, layer.count t ≤ 0 := by
      intro n hn
      induction n with
      | zero => exact hn
      | succ n ih => exact ih (hself ▸ (h.count_le_run_iff hstrips).mpr hn)
    exact hfewer _ fun t ht => List.le_sum_of_mem (List.mem_map_of_mem (f := layer.count) ht)
  · intro hnone
    have hself : ∀ key d, g.get? key = some d → d.mapForm change = d := fun key d hd => by
      have hd : d ∈ g.nodes.values := Keyed.mem_values_iff.mpr ⟨key, hd⟩
      have hform : change d.form = d.form := hstrips.change_eq_self fun t ht =>
        Expr.Layer.count_eq_zero_iff.mp (Nat.le_zero.mp (Graph.forall_collect_iff.mp hnone d hd t ht))
      rw [Declaration.mapForm, hform]
    rw [h g]
    exact (Graph.mapNodes_eq_iff.mpr hself).trans g.mapNodes_id

theorem count_le_runs_iff (h : pass.ChangesBy (Declaration.mapForm change))
    (hstrips : Form.Strips layer types change) {n m : Nat} {g : Graph} :
    (∀ t ∈ (g.applyAll ((List.replicate n pass).map Pass.change)).state.collect types,
      layer.count t ≤ m) ↔ ∀ t ∈ g.collect types, layer.count t ≤ m + n := by
  induction n generalizing g with
  | zero => exact Iff.rfl
  | succ n ih =>
      rw [List.replicate_succ, state_applyAll_cons, ih, h.count_le_run_iff hstrips]
      rfl

/-- After as many runs as there are layers at most, none is left, and a run changes nothing. -/
theorem stripped_after_iff (h : pass.ChangesBy (Declaration.mapForm change))
    (hstrips : Form.Strips layer types change) (g : Graph) (n : Nat) :
    ∃ g', (g.applyAll (List.replicate n pass.change)).result = .ok g' ∧
      ((∀ t ∈ g'.collect types, layer.covers t = false) ↔
        ∀ t ∈ g.collect types, layer.count t ≤ n) ∧
      ((g'.apply pass.change).result = .ok g' ↔ ∀ t ∈ g.collect types, layer.count t ≤ n) := by
  have hruns := h.count_le_runs_iff hstrips (n := n) (m := 0) (g := g)
  have hresult := result_applyAll (List.replicate n pass) g
  simp only [Nat.le_zero_eq, Expr.Layer.count_eq_zero_iff, Nat.zero_add] at hruns
  rw [List.map_replicate] at hresult hruns
  refine ⟨_, hresult, hruns, ?_⟩
  rw [result_apply, Except.ok.injEq, h.run_eq_self_iff hstrips, hruns]

end Pass.ChangesBy

/-- Every run of a pass that drops null takes one layer off. After one run no optional member is a
union with a null arm exactly if no type of an optional member is such a union inside such a union,
and no element of an array is a union of null and one other arm exactly if none was that twice; this
is also when a second run changes nothing. After several runs the types may have as many layers. -/
theorem Pass.null_removed_after_iff (g : Graph) (n : Nat) :
    (∃ g', (g.applyAll (List.replicate n simplifyOptional.change)).result = .ok g' ∧
      ((∀ t ∈ g'.optionalTypes, t.isNullable = false) ↔
        ∀ t ∈ g.optionalTypes, Expr.nullArms.count t ≤ n) ∧
      ((g'.apply simplifyOptional.change).result = .ok g' ↔
        ∀ t ∈ g.optionalTypes, Expr.nullArms.count t ≤ n)) ∧
    ∃ g', (g.applyAll (List.replicate n nullUnionSlices.change)).result = .ok g' ∧
      ((∀ t ∈ g'.elementTypes, t.isNullablePair = false) ↔
        ∀ t ∈ g.elementTypes, Expr.nullBeside.count t ≤ n) ∧
      ((g'.apply nullUnionSlices.change).result = .ok g' ↔
        ∀ t ∈ g.elementTypes, Expr.nullBeside.count t ≤ n) := by
  constructor
  · exact changesBy_simplifyOptional.stripped_after_iff Form.strips_simplify g n
  · exact changesBy_nullUnionSlices.stripped_after_iff
      (Form.strips_mapSubterms Expr.strips_notNullElements) g n

/-- A nickname behind two pointers, and a list of such names. -/
def nicknameGraph : Graph where
  nodes := .ofList [("User", { form := user })]
where
  once : Expr := .nullable (.keyword .string)
  name : Expr := .nullable once
  user : Form := .record ⟨"User", some "m", ""⟩ [] []
    [⟨"nick", [], true, name, []⟩, ⟨"names", [], false, .array name, []⟩]

/-- Dropping null leaves the null that was under it, and a second run changes that. -/
theorem nullable_after_removal :
    (∃ g', (nicknameGraph.apply Pass.simplifyOptional.change).result = .ok g' ∧
      (∃ t ∈ g'.optionalTypes, t.isNullable = true) ∧
      (g'.apply Pass.simplifyOptional.change).result ≠ .ok g') ∧
    ∃ g', (nicknameGraph.apply Pass.nullUnionSlices.change).result = .ok g' ∧
      (∃ t ∈ g'.elementTypes, t.isNullablePair = true) ∧
      (g'.apply Pass.nullUnionSlices.change).result ≠ .ok g' := by
  have hoptional : nicknameGraph.once ∈
      (Pass.simplifyOptional.run nicknameGraph).state.optionalTypes := List.mem_cons_self
  have helement : nicknameGraph.once ∈
      (Pass.nullUnionSlices.run nicknameGraph).state.elementTypes := List.mem_cons_self
  refine ⟨⟨_, Pass.result_apply _ _, ⟨_, hoptional, rfl⟩, fun h => ?_⟩,
    ⟨_, Pass.result_apply _ _, ⟨_, helement, rfl⟩, fun h => ?_⟩⟩
  all_goals rw [Pass.result_apply, Except.ok.injEq] at h
  · cases (Pass.changesBy_simplifyOptional.run_eq_self_iff Form.strips_simplify).mp h _ hoptional
  · cases (Pass.changesBy_nullUnionSlices.run_eq_self_iff
      (Form.strips_mapSubterms Expr.strips_notNullElements)).mp h _ helement

end TypeBridge
