import TypeBridge.Proofs.Commuting
import TypeBridge.Proofs.VisitOrder

/-!
Unions and intersections without members, which print as nothing. If a graph has none and no enum
without members, then no pass but one makes any. The one that drops null from optional members leaves
an empty union of a type that is a union of nulls only, and of no other type. This cannot happen if
every union has an arm other than null: all passes keep it so.
-/

namespace TypeBridge

/-! ### Types with members -/

namespace Expr

/-- Whether a union has an arm, and an intersection a part. If null does not count, a union needs
another arm. -/
def isSolid (countNull : Bool) : Expr → Bool
  | .union arms => arms.any fun arm => countNull || !arm.isNull
  | .intersection parts => !parts.isEmpty
  | _ => true

/-- Every union and every intersection inside an expression has a member. -/
def Solid (countNull : Bool) (e : Expr) : Prop := ∀ t ∈ e.subterms, t.isSolid countNull = true

variable {c : Bool} {e : Expr}

theorem isSolid_true_iff : e.isSolid true = true ↔ e ≠ .union [] ∧ e ≠ .intersection [] := by
  cases e with
  | union arms => cases arms <;> simp [isSolid]
  | _ => simp [isSolid]

/-- An arm other than null is an arm. -/
theorem Solid.weaken (h : e.Solid false) : e.Solid true := by
  intro t ht
  have hsolid := h t ht
  cases t with
  | union arms =>
      simp only [isSolid, List.any_eq_true] at hsolid ⊢
      exact hsolid.imp fun arm ⟨harm, _⟩ => ⟨harm, rfl⟩
  | _ => exact hsolid

theorem solid_iff :
    e.Solid c ↔ (∀ child ∈ e.children, child.Solid c) ∧ e.isSolid c = true :=
  forall_subterms_iff

theorem solid_of_leaf (hchildren : e.children = []) (hself : e.isSolid c = true) : e.Solid c :=
  solid_iff.mpr ⟨by simp [hchildren], hself⟩

theorem isSolid_mapChildren {f : Expr → Expr} (hnull : ∀ e, (f e).isNull = e.isNull) (e : Expr) :
    (e.mapChildren f).isSolid c = e.isSolid c := by
  cases e <;> simp [mapChildren, isSolid, hnull, Function.comp_def]

theorem solid_mapChildren_iff {f : Expr → Expr} (hnull : ∀ e, (f e).isNull = e.isNull) :
    (e.mapChildren f).Solid c ↔ (∀ child ∈ e.children, (f child).Solid c) ∧ e.isSolid c = true := by
  rw [solid_iff, children_mapChildren, isSolid_mapChildren hnull]
  simp only [List.forall_mem_map]

theorem isNull_mapSubterms {f : Expr → Expr} (hnull : ∀ e, (f e).isNull = e.isNull) (e : Expr) :
    (e.mapSubterms f).isNull = e.isNull := by
  rw [mapSubterms_eq, hnull, isNull_mapChildren]

/-- A walk keeps members everywhere if its steps do, and make nothing null that was not. -/
theorem Solid.mapSubterms {f : Expr → Expr} (hnull : ∀ e, (f e).isNull = e.isNull)
    (hstep : ∀ e : Expr, e.Solid c → (f e).Solid c) (h : e.Solid c) : (e.mapSubterms f).Solid c :=
  forall_subterms_mapSubterms
    (fun e hself => (isSolid_mapChildren (isNull_mapSubterms hnull) e).trans hself) hstep h

theorem Solid.of_nonNullArm? (h : e.Solid c) {arm : Expr} (harm : e.nonNullArm? = some arm) :
    arm.Solid c :=
  (solid_iff.mp h).1 arm (mem_children_of_nonNullArm? harm)

theorem Solid.notNullMap (h : e.Solid c) : e.notNullMap.Solid c := by
  rcases e.notNullMap_cases with hself | ⟨harm, -⟩
  · rwa [hself]
  · exact h.of_nonNullArm? harm

theorem Solid.withoutNull (h : e.Solid c) : e.withoutNull.Solid c := by
  rw [Expr.withoutNull]
  cases harm : e.nonNullArm? with
  | none => exact h
  | some arm => exact h.of_nonNullArm? harm

theorem solid_array_iff {elem : Expr} : (array elem).Solid c ↔ elem.Solid c := by
  rw [solid_iff]
  simp [children, isSolid]

theorem Solid.notNullElements (h : e.Solid c) : e.notNullElements.Solid c := by
  cases e with
  | array elem => exact solid_array_iff.mpr (solid_array_iff.mp h).withoutNull
  | _ => exact h

theorem Solid.anyIfUnknown (known : String → Bool) (h : e.Solid c) :
    (e.anyIfUnknown known).Solid c := by
  cases e with
  | reference name args =>
      rw [Expr.anyIfUnknown]
      split
      · exact h
      · exact solid_of_leaf rfl rfl
  | _ => exact h

theorem isNull_anyIfUnknown (known : String → Bool) (e : Expr) :
    (e.anyIfUnknown known).isNull = e.isNull := by
  cases e with
  | reference name args =>
      rw [Expr.anyIfUnknown]
      split <;> rfl
  | _ => rfl

theorem solid_typeLiteral_iff {members : List Property} :
    (typeLiteral members).Solid c ↔ ∀ m ∈ members, m.type.Solid c := by
  rw [solid_iff]
  simp [children, isSolid]

theorem Solid.readOnly (h : e.Solid c) : e.readOnly.Solid c := by
  induction e using children_induction with
  | inherited e ih =>
      obtain ⟨hchildren, hself⟩ := solid_iff.mp h
      have hbelow : ∀ child ∈ e.children, child.readOnly.Solid c := fun child hchild =>
        ih child hchild (hchildren child hchild)
      have hlist : (operator .readonly e).Solid c := by
        rw [solid_iff]
        simpa [children, isSolid] using h
      cases e with
      | array elem => simpa only [Expr.readOnly] using hlist
      | tuple elem length => simpa only [Expr.readOnly] using hlist
      | union arms =>
          have hmap : (union arms).readOnly = (union arms).mapChildren Expr.readOnly := by
            rw [Expr.readOnly, readOnlyList_eq_map, mapChildren]
          rw [hmap, solid_mapChildren_iff armwise_readOnly.isNull]
          exact ⟨hbelow, hself⟩
      | typeLiteral members =>
          rw [Expr.readOnly, readOnlyMembers_eq_map, solid_typeLiteral_iff, List.forall_mem_map]
          exact fun m hm => hbelow m.type (List.mem_map_of_mem hm)
      | _ => simpa only [Expr.readOnly] using h

/-! ### Members of which nothing is left -/

/-- A union of nulls only. -/
def isNullOnly : Expr → Bool
  | .union arms => arms.all isNull
  | _ => false

/-- The members of an object type. -/
def members : Expr → List Property
  | .typeLiteral members => members
  | _ => []

theorem solid_union_iff {arms : List Expr} : (union arms).Solid c ↔
    (∀ arm ∈ arms, arm.Solid c) ∧ ∃ arm ∈ arms, (c || !arm.isNull) = true := by
  rw [solid_iff]
  simp [children, isSolid]

theorem solid_union_of_nonNull {arms : List Expr} (hother : ∃ arm ∈ arms, arm.isNull = false) :
    (union arms).Solid c ↔ ∀ arm ∈ arms, arm.Solid c := by
  rw [solid_union_iff, and_iff_left]
  obtain ⟨arm, harm, hnull⟩ := hother
  exact ⟨arm, harm, by rw [hnull, Bool.not_false, Bool.or_true]⟩

theorem solid_ofArms_iff {arms : List Expr} (hnull : ∀ arm ∈ arms, arm.isNull = false) :
    (ofArms arms).Solid c ↔ arms ≠ [] ∧ ∀ arm ∈ arms, arm.Solid c := by
  match arms with
  | [] => simp [ofArms, solid_union_iff]
  | [arm] => simp [ofArms]
  | a :: b :: rest =>
      have hfirst : ∃ arm ∈ a :: b :: rest, arm.isNull = false :=
        ⟨a, List.mem_cons_self, hnull a List.mem_cons_self⟩
      simpa [ofArms] using solid_union_of_nonNull hfirst

/-- Dropping null leaves members everywhere, unless the type is a union of nulls only. -/
theorem solid_dropNull_iff : e.dropNull.Solid c ↔ e.Solid c ∧ e.isNullOnly = false := by
  cases e with
  | union arms =>
      have hother : (union arms).isNullOnly = false ↔ ∃ arm ∈ arms, arm.isNull = false := by
        simp [isNullOnly]
      rw [dropNull_union, hother]
      split
      · have hkept : ∀ arm ∈ arms.filter fun arm => !arm.isNull, arm.isNull = false := by simp
        have hsome : (arms.filter fun arm => !arm.isNull) ≠ [] ↔ ∃ arm ∈ arms, arm.isNull = false := by
          simp
        have hsolid : (∀ arm ∈ arms.filter fun arm => !arm.isNull, arm.Solid c) ↔
            ∀ arm ∈ arms, arm.Solid c := by
          -- null has no members to lack, so the arms that are kept decide
          refine ⟨fun h arm harm => ?_, fun h arm harm => h arm (List.mem_filter.mp harm).1⟩
          cases hnull : arm.isNull with
          | true => exact eq_null_of_isNull hnull ▸ solid_of_leaf rfl rfl
          | false => exact h arm (List.mem_filter.mpr ⟨harm, by rw [hnull]; rfl⟩)
        rw [solid_ofArms_iff hkept, hsome, hsolid, and_comm]
        exact and_congr_left fun hother => (solid_union_of_nonNull hother).symm
      · rename_i hnone
        refine (and_iff_left_of_imp fun h => ?_).symm
        obtain ⟨-, arm, harm, -⟩ := solid_union_iff.mp h
        refine ⟨arm, harm, Bool.eq_false_iff.mpr fun hnull => hnone ?_⟩
        exact List.any_eq_true.mpr ⟨arm, harm, hnull⟩
  | _ => simp [dropNull, isNullOnly]

end Expr

/-- An optional member of which nothing is left without null. -/
def Property.vanishes (p : Property) : Bool := p.optional && p.type.isNullOnly

theorem Property.solid_simplifyOptional_iff {c : Bool} {p : Property} :
    p.simplifyOptional.type.Solid c ↔ p.type.Solid c ∧ p.vanishes = false := by
  unfold simplifyOptional vanishes
  cases p.optional with
  | true => simpa using Expr.solid_dropNull_iff
  | false => simp

namespace Expr

variable {c : Bool} {e : Expr}

/-- All members of object types inside an expression have a property. -/
def AllMembers (Q : Property → Prop) (e : Expr) : Prop := ∀ t ∈ e.subterms, ∀ p ∈ t.members, Q p

theorem allMembers_iff {Q : Property → Prop} :
    e.AllMembers Q ↔ (∀ child ∈ e.children, child.AllMembers Q) ∧ ∀ p ∈ e.members, Q p :=
  forall_subterms_iff

/-- Something is left of every optional member inside an expression when null is dropped. -/
def Lasting (e : Expr) : Prop := ∀ t ∈ e.subterms, ∀ p ∈ t.members, p.vanishes = false

theorem lasting_iff :
    e.Lasting ↔ (∀ child ∈ e.children, child.Lasting) ∧ ∀ p ∈ e.members, p.vanishes = false :=
  allMembers_iff

theorem members_mapChildren (f : Expr → Expr) (e : Expr) :
    (e.mapChildren f).members = e.members.map (Property.mapType f) := by
  cases e <;> rfl

theorem Armwise.isNullOnly {f : Expr → Expr} (h : Armwise f) (e : Expr) :
    (f e).isNullOnly = e.isNullOnly := by
  have hall : ∀ e : Expr, e.isNullOnly = (e.arms?.map (List.all · Expr.isNull)).getD false := by
    intro e
    cases e <;> rfl
  rw [hall, hall e, h.arms]
  cases e.arms? with
  | none => rfl
  | some arms => simp [h.isNull, Function.comp_def]

theorem solid_simplifyMembers_iff :
    e.simplifyMembers.Solid c ↔ e.Solid c ∧ ∀ p ∈ e.members, p.vanishes = false := by
  cases e with
  | typeLiteral members =>
      simp only [simplifyMembers, solid_typeLiteral_iff, List.forall_mem_map,
        Property.solid_simplifyOptional_iff, Expr.members, forall_and]
  | _ => simp [simplifyMembers, Expr.members]

/-- The walk that drops null from optional members leaves members everywhere in exactly the
expressions where something is left of each of these. -/
theorem solid_simplify_iff : (e.mapSubterms simplifyMembers).Solid c ↔ e.Solid c ∧ e.Lasting := by
  have hwalk := armwise_simplifyMembers
  induction e using children_induction with
  | inherited e ih =>
      -- the walk goes through unions arm by arm, so what vanishes after it did so before
      have hvanish : ∀ p : Property,
          (p.mapType (mapSubterms simplifyMembers)).vanishes = p.vanishes := fun p => by
        simp only [Property.vanishes, Property.mapType, hwalk.isNullOnly]
      have hchildren : (∀ child ∈ e.children, (child.mapSubterms simplifyMembers).Solid c) ↔
          (∀ child ∈ e.children, child.Solid c) ∧ ∀ child ∈ e.children, child.Lasting := by
        rw [← forall₂_and]
        exact forall₂_congr ih
      rw [mapSubterms_eq, solid_simplifyMembers_iff, solid_mapChildren_iff hwalk.isNull, hchildren,
        members_mapChildren, List.forall_mem_map, solid_iff, lasting_iff]
      simp only [hvanish]
      tauto

/-- Where every union has an arm other than null, something is left of it. -/
theorem Solid.isNullOnly (h : e.Solid false) : e.isNullOnly = false := by
  cases e with
  | union arms =>
      obtain ⟨-, arm, harm, hnull⟩ := solid_union_iff.mp h
      simpa [Expr.isNullOnly] using ⟨arm, harm, by simpa using hnull⟩
  | _ => rfl

theorem Solid.lasting (h : e.Solid false) : e.Lasting := by
  induction e using children_induction with
  | inherited e ih =>
      obtain ⟨hchildren, -⟩ := solid_iff.mp h
      refine lasting_iff.mpr ⟨fun child hchild => ih child hchild (hchildren child hchild), ?_⟩
      cases e with
      | typeLiteral members =>
          intro p hp
          have htype := hchildren p.type (List.mem_map_of_mem hp)
          rw [Property.vanishes, htype.isNullOnly, Bool.and_false]
      | _ => exact fun _ hp => (nomatch hp)

end Expr

/-! ### Declarations -/

namespace Form

/-- Whether an enum has a member; if null does not count, one of another value. -/
def hasMember (countNull : Bool) : Form → Bool
  | .enumeration _ members => members.any fun m => countNull || !m.valueExpr.isNull
  | _ => true

/-- Every union, every intersection and every enum of a declaration has a member. -/
def Solid (countNull : Bool) (form : Form) : Prop :=
  (∀ t ∈ form.subterms, t.isSolid countNull = true) ∧ form.hasMember countNull = true

instance (countNull : Bool) (form : Form) : Decidable (form.Solid countNull) :=
  inferInstanceAs (Decidable (_ ∧ _))

/-- The fields of a record. -/
def fields : Form → List Property
  | .record _ _ _ fields => fields
  | _ => []

/-- All members of a declaration have a property: the fields of a record, and the members of object
types at every depth. -/
def AllMembers (Q : Property → Prop) (form : Form) : Prop :=
  (∀ p ∈ form.fields, Q p) ∧ ∀ t ∈ form.subterms, ∀ p ∈ t.members, Q p

/-- Something is left of every optional member of a declaration when null is dropped. -/
def Lasting (form : Form) : Prop :=
  (∀ p ∈ form.fields, p.vanishes = false) ∧ ∀ t ∈ form.subterms, ∀ p ∈ t.members, p.vanishes = false

instance (form : Form) : Decidable form.Lasting := inferInstanceAs (Decidable (_ ∧ _))

variable {c : Bool} {form : Form}

theorem solid_iff :
    form.Solid c ↔ (∀ e ∈ form.exprs, e.Solid c) ∧ form.hasMember c = true :=
  and_congr_left' forall_subterms_iff

theorem allMembers_iff {Q : Property → Prop} :
    form.AllMembers Q ↔ (∀ p ∈ form.fields, Q p) ∧ ∀ e ∈ form.exprs, e.AllMembers Q :=
  and_congr_right' forall_subterms_iff

theorem lasting_iff :
    form.Lasting ↔ (∀ p ∈ form.fields, p.vanishes = false) ∧ ∀ e ∈ form.exprs, e.Lasting :=
  allMembers_iff

theorem Solid.weaken (h : form.Solid false) : form.Solid true := by
  obtain ⟨hexprs, hmember⟩ := solid_iff.mp h
  refine solid_iff.mpr ⟨fun e he => (hexprs e he).weaken, ?_⟩
  cases form with
  | enumeration name members =>
      simp only [hasMember, List.any_eq_true] at hmember ⊢
      exact hmember.imp fun m ⟨hm, _⟩ => ⟨hm, rfl⟩
  | _ => rfl

theorem Solid.lasting (h : form.Solid false) : form.Lasting := by
  obtain ⟨hexprs, -⟩ := solid_iff.mp h
  refine lasting_iff.mpr ⟨?_, fun e he => (hexprs e he).lasting⟩
  cases form with
  | record name params heritage fields =>
      intro p hp
      have htype := hexprs p.type (List.mem_append_right _ (List.mem_map_of_mem hp))
      rw [Property.vanishes, htype.isNullOnly, Bool.and_false]
  | _ => exact fun _ hp => (nomatch hp)

theorem hasMember_mapExprs {f : Expr → Expr} (hnull : ∀ e, (f e).isNull = e.isNull) (form : Form) :
    (form.mapExprs f).hasMember c = form.hasMember c := by
  cases form with
  | enumeration name members =>
      have hvalue : ∀ m : EnumMember,
          (EnumMember.valueExpr { m with value := m.value.map f }).isNull = m.valueExpr.isNull := by
        intro m
        unfold EnumMember.valueExpr
        cases m.value with
        | none => rfl
        | some value => exact hnull value
      simp only [mapExprs, hasMember, List.any_map, Function.comp_def, hvalue]
  | _ => rfl

theorem Solid.mapSubterms {f : Expr → Expr} (hnull : ∀ e, (f e).isNull = e.isNull)
    (hstep : ∀ e : Expr, e.Solid c → (f e).Solid c) (h : form.Solid c) :
    (form.mapSubterms f).Solid c := by
  obtain ⟨hexprs, hmember⟩ := solid_iff.mp h
  rw [solid_iff, Form.mapSubterms, exprs_mapExprs, List.forall_mem_map,
    hasMember_mapExprs (Expr.isNull_mapSubterms hnull)]
  exact ⟨fun e he => (hexprs e he).mapSubterms hnull hstep, hmember⟩

theorem Solid.readOnly (h : form.Solid c) : form.readOnly.Solid c := by
  obtain ⟨hexprs, hmember⟩ := solid_iff.mp h
  rw [solid_iff]
  cases form with
  | typeAlias name params type =>
      simp only [exprs, Form.readOnly, List.forall_mem_append, List.forall_mem_singleton] at hexprs ⊢
      exact ⟨⟨hexprs.1, hexprs.2.readOnly⟩, rfl⟩
  | record name params heritage fields =>
      simp only [exprs, Form.readOnly, List.forall_mem_append, List.forall_mem_map,
        Expr.readOnlyMembers_eq_map] at hexprs ⊢
      exact ⟨⟨hexprs.1, fun p hp => (hexprs.2 p hp).readOnly⟩, rfl⟩
  | _ => exact ⟨hexprs, hmember⟩

theorem Solid.enumAsType (h : form.Solid c) : form.enumAsType.Solid c := by
  cases form with
  | enumeration name members =>
      obtain ⟨hexprs, hmember⟩ := solid_iff.mp h
      have hvalues : ∀ m ∈ members, m.valueExpr.Solid c := by
        intro m hm
        unfold EnumMember.valueExpr
        cases hvalue : m.value with
        | none => exact Expr.solid_of_leaf rfl rfl
        | some value =>
            exact hexprs value (List.mem_flatMap.mpr ⟨m, hm, by simp [hvalue]⟩)
      have hunion : (Expr.union (members.map EnumMember.valueExpr)).Solid c := by
        rw [Expr.solid_iff]
        refine ⟨List.forall_mem_map.mpr hvalues, ?_⟩
        simpa [Expr.isSolid, hasMember] using hmember
      simpa [solid_iff, Form.enumAsType, exprs, hasMember] using hunion
  | _ => exact h

theorem Solid.trimMembers (h : form.Solid c) : form.trimMembers.Solid c := by
  cases form with
  | enumeration name members =>
      have hvalue : ∀ (front : String) (m : EnumMember), (m.trimPrefix front).value = m.value := by
        intro front m
        simp only [EnumMember.trimPrefix]
        split <;> rfl
      have hnull : ∀ (front : String) (m : EnumMember),
          (m.trimPrefix front).valueExpr.isNull = m.valueExpr.isNull := by
        intro front m
        rw [EnumMember.valueExpr, EnumMember.valueExpr, hvalue]
        cases m.value <;> rfl
      simpa [solid_iff, Form.trimMembers, exprs, hasMember, hvalue, hnull, List.flatMap_map,
        Function.comp_def] using h
  | _ => exact h

/-- The interface form has the unions and intersections of a record, and one that is not empty. -/
theorem solid_objectType_iff {parents : List Expr} {fields : List Property} :
    (objectType parents fields).Solid c ↔
      (∀ e ∈ parents, e.Solid c) ∧ ∀ p ∈ fields, p.type.Solid c := by
  cases parents with
  | nil => simp [objectType, Expr.solid_typeLiteral_iff]
  | cons parent rest =>
      rw [objectType, if_neg (by simp), Expr.solid_iff]
      simp [Expr.children, Expr.isSolid, Expr.solid_typeLiteral_iff, and_assoc, or_imp, forall_and]

theorem solid_interfaceToType_iff : form.interfaceToType.Solid c ↔ form.Solid c := by
  cases form with
  | record name params heritage fields =>
      rw [interfaceToType_record, solid_iff, solid_iff]
      simp only [exprs, List.forall_mem_append, List.forall_mem_singleton, solid_objectType_iff,
        List.forall_mem_map, hasMember, and_assoc]
  | _ => exact Iff.rfl

theorem allMembers_objectType_iff {Q : Property → Prop} {parents : List Expr} {fields : List Property} :
    (objectType parents fields).AllMembers Q ↔ (∀ e ∈ parents, e.AllMembers Q) ∧
      (∀ p ∈ fields, p.type.AllMembers Q) ∧ ∀ p ∈ fields, Q p := by
  have hliteral : (Expr.typeLiteral fields).AllMembers Q ↔
      (∀ p ∈ fields, p.type.AllMembers Q) ∧ ∀ p ∈ fields, Q p := by
    rw [Expr.allMembers_iff]
    simp [Expr.children, Expr.members]
  cases parents with
  | nil => simpa [objectType] using hliteral
  | cons parent rest =>
      rw [objectType, if_neg (by simp), Expr.allMembers_iff]
      simp [Expr.children, Expr.members, hliteral, and_assoc, or_imp, forall_and]

/-- The interface form has the members of a record, its fields among them. -/
theorem allMembers_interfaceToType_iff {Q : Property → Prop} :
    form.interfaceToType.AllMembers Q ↔ form.AllMembers Q := by
  cases form with
  | record name params heritage fields =>
      rw [interfaceToType_record, allMembers_iff, allMembers_iff]
      simp only [exprs, Form.fields, List.forall_mem_append, List.forall_mem_singleton,
        allMembers_objectType_iff, List.forall_mem_map, List.not_mem_nil, false_implies,
        implies_true, true_and]
      tauto
  | _ => exact Iff.rfl

theorem solid_simplifyMembers_iff : (form.mapSubterms Expr.simplifyMembers).Solid c ↔
    form.Solid c ∧ ∀ e ∈ form.exprs, e.Lasting := by
  rw [solid_iff, solid_iff, mapSubterms, exprs_mapExprs, List.forall_mem_map,
    hasMember_mapExprs Expr.armwise_simplifyMembers.isNull]
  simp only [Expr.solid_simplify_iff, forall₂_and]
  tauto

theorem fields_interfaceToType (form : Form) : form.interfaceToType.fields = [] := by
  cases form <;> rfl

/-- In the interface form all optional members are simplified by the walk. -/
theorem interfaceToType_simplify (form : Form) :
    (form.simplifyFields.mapSubterms Expr.simplifyMembers).interfaceToType =
      form.interfaceToType.mapSubterms Expr.simplifyMembers := by
  have hfields : form.interfaceToType.simplifyFields = form.interfaceToType := by
    cases form <;> rfl
  have hcommute : form.interfaceToType.simplifyFields.mapSubterms Expr.simplifyMembers =
      (form.simplifyFields.mapSubterms Expr.simplifyMembers).interfaceToType :=
    simplifyOptional_commute_interfaceToType form
  rw [← hcommute, hfields]

/-- Dropping null from optional members leaves members everywhere if something is left of each of
these, and only then. A record is looked at in its interface form, where its fields are members. -/
theorem solid_simplify_iff :
    (form.simplifyFields.mapSubterms Expr.simplifyMembers).Solid c ↔ form.Solid c ∧ form.Lasting := by
  have hlasting : form.interfaceToType.Lasting ↔ form.Lasting := allMembers_interfaceToType_iff
  rw [← solid_interfaceToType_iff, interfaceToType_simplify, solid_simplifyMembers_iff,
    solid_interfaceToType_iff, ← hlasting, lasting_iff, fields_interfaceToType]
  simp

/-- The parents of a record. -/
def parents : Form → List Expr
  | .record _ _ heritage _ => heritage.flatMap Heritage.args
  | _ => []

theorem mem_exprs_of_parent (form : Form) {parent : Expr} (h : parent ∈ form.parents) :
    parent ∈ form.exprs := by
  cases form with
  | record name params heritage fields =>
      exact List.mem_append_left _ (List.mem_append_right _ h)
  | _ => cases h

/-- What is left of the expressions of a declaration that is repaired: the parents whose names are
known, as they were, and the other expressions without unknown references. -/
theorem mem_exprs_repair {known : String → Bool} {e : Expr} (h : e ∈ (form.repair known).exprs) :
    (e ∈ form.parents ∧ e.resolves known = true) ∨ ∃ e' ∈ form.exprs, e = e'.repair known := by
  have hwalk : e ∈ (form.mapExprs (Expr.repair known)).exprs →
      ∃ e' ∈ form.exprs, e = e'.repair known := by
    rw [exprs_mapExprs, List.mem_map]
    rintro ⟨e', he', rfl⟩
    exact ⟨e', he', rfl⟩
  cases form with
  | typeAlias name params type => exact .inr (hwalk h)
  | statement kind bindings => exact .inr (hwalk h)
  | record name params heritage fields =>
      simp only [repair, exprs, parents, List.mem_append, List.mem_flatMap, List.mem_map] at h ⊢
      rcases h with (⟨_, ⟨p, hp, rfl⟩, he⟩ | ⟨clause, hclause, he⟩) | ⟨_, ⟨p, hp, rfl⟩, rfl⟩
      · rw [TypeParameter.repair, TypeParameter.exprs_mapExprs, List.mem_map] at he
        obtain ⟨e', he', rfl⟩ := he
        exact .inr ⟨e', .inl (.inl ⟨p, hp, he'⟩), rfl⟩
      · obtain ⟨clause, hmem, rfl⟩ := List.mem_map.mp (List.mem_filter.mp hclause).1
        obtain ⟨hparent, hkept⟩ := List.mem_filter.mp he
        exact .inl ⟨⟨clause, hmem, hparent⟩, hkept⟩
      · exact .inr ⟨p.type, .inr ⟨p, hp, rfl⟩, rfl⟩
  | enumeration name members =>
      simp only [repair, exprs, List.mem_flatMap, List.mem_map] at h ⊢
      obtain ⟨_, ⟨m, hm, rfl⟩, he⟩ := h
      obtain ⟨e', he', rfl⟩ : ∃ e', m.value = some e' ∧ e'.repair known = e := by
        simpa [EnumMember.repair] using he
      exact .inr ⟨e', ⟨m, hm, by simp [he']⟩, rfl⟩

theorem hasMember_repair (known : String → Bool) (form : Form) :
    (form.repair known).hasMember c = form.hasMember c := by
  have hnull := Expr.isNull_mapSubterms (Expr.isNull_anyIfUnknown known)
  cases form with
  | enumeration name members =>
      rw [← hasMember_mapExprs hnull (.enumeration name members)]
      simp only [repair, mapExprs, hasMember, List.any_map]
      rfl
  | _ => rfl

theorem Solid.repair (known : String → Bool) (h : form.Solid c) : (form.repair known).Solid c := by
  obtain ⟨hexprs, hmember⟩ := solid_iff.mp h
  refine solid_iff.mpr ⟨fun e he => ?_, (hasMember_repair known form).trans hmember⟩
  rcases mem_exprs_repair he with ⟨hparent, -⟩ | ⟨e', hold, rfl⟩
  · exact hexprs e (form.mem_exprs_of_parent hparent)
  · exact (hexprs e' hold).mapSubterms (Expr.isNull_anyIfUnknown known) fun _ =>
      Expr.Solid.anyIfUnknown known

end Form

/-- A list of values is made of the arms of a union. -/
theorem Declaration.solid_of_valueList? {c : Bool} {d : Declaration} {list : String × Declaration}
    (h : d.form.Solid c) (hlist : d.valueList? = some list) : list.2.form.Solid c := by
  unfold valueList? at hlist
  split at hlist
  · rename_i name params arms hform
    split at hlist
    · cases hlist
      have hunion : (Expr.union arms).Solid c :=
        (Form.solid_iff.mp h).1 _ (by simp [hform, Form.exprs])
      have harms : (Expr.arrayLiteral arms).Solid c :=
        Expr.solid_iff.mpr ⟨(Expr.solid_iff.mp hunion).1, rfl⟩
      have htype : (Expr.array (.reference name [])).Solid c :=
        Expr.solid_array_iff.mpr (Expr.solid_of_leaf rfl rfl)
      simpa [Form.solid_iff, Form.constant, Form.exprs, Form.hasMember] using And.intro htype harms
    · cases hlist
  · cases hlist

/-! ### Passes -/

namespace Graph

/-- Every union, every intersection and every enum of a graph has a member. -/
def Solid (countNull : Bool) (g : Graph) : Prop := ∀ d ∈ g.nodes.values, d.form.Solid countNull

instance (countNull : Bool) (g : Graph) : Decidable (g.Solid countNull) :=
  inferInstanceAs (Decidable (∀ d ∈ _, _))

/-- Something is left of every optional member of a graph when null is dropped. -/
def Lasting (g : Graph) : Prop := ∀ d ∈ g.nodes.values, d.form.Lasting

instance (g : Graph) : Decidable g.Lasting := inferInstanceAs (Decidable (∀ d ∈ _, _))

variable {c : Bool} {g : Graph}

theorem solid_iff : g.Solid c ↔ ∀ key d, g.get? key = some d → d.form.Solid c := by
  simp only [Solid, Keyed.mem_values_iff]
  exact ⟨fun h key d hd => h d ⟨key, hd⟩, fun h d ⟨key, hd⟩ => h key d hd⟩

theorem values_mapNodes (f : Declaration → Declaration) :
    (g.mapNodes fun _ => f).nodes.values = g.nodes.values.map f := by
  simp [mapNodes, Keyed.mapValues, Keyed.values]

theorem Solid.mapNodes {f : Declaration → Declaration}
    (hf : ∀ d : Declaration, d.form.Solid c → (f d).form.Solid c) (h : g.Solid c) :
    (g.mapNodes fun _ => f).Solid c := by
  rw [Solid, values_mapNodes, List.forall_mem_map]
  exact fun d hd => hf d (h d hd)

theorem Solid.enumLists (h : g.Solid c) : g.enumLists.state.Solid c := by
  rw [solid_iff]
  intro key d hd
  rw [get?_enumLists, Option.or_eq_some_iff] at hd
  rcases hd with hold | ⟨-, hnew⟩
  · exact solid_iff.mp h key d hold
  · obtain ⟨source, hsource, hlist⟩ := List.mem_filterMap.mp (Keyed.mem_of_lookup_eq_some hnew)
    exact Declaration.solid_of_valueList? (h source hsource) hlist

/-- Dropping null leaves members everywhere if something is left of each optional member. -/
theorem solid_simplifyOptional_iff : g.simplifyOptional.Solid c ↔ g.Solid c ∧ g.Lasting := by
  have hstep : g.simplifyOptional.Solid c ↔
      ∀ d ∈ g.nodes.values, d.form.Solid c ∧ d.form.Lasting := by
    rw [Solid, simplifyOptional, values_mapNodes, List.forall_mem_map]
    exact forall₂_congr fun d _ => Form.solid_simplify_iff
  rw [hstep, forall₂_and, Solid, Lasting]

theorem Solid.lasting (h : g.Solid false) : g.Lasting := fun d hd => (h d hd).lasting

theorem Solid.weaken (h : g.Solid false) : g.Solid true := fun d hd => (h d hd).weaken

/-- Whenever one of the passes drops null from optional members, something is left of each. -/
def LastingBefore (g : Graph) (passes : List Pass) : Prop :=
  ∀ before after, passes = before ++ .simplifyOptional :: after →
    (g.applyAll (before.map Pass.change)).state.Lasting

end Graph

namespace Pass

variable {c : Bool} {g : Graph}

theorem ChangesBy.solid {pass : Pass} {f : Form → Form}
    (h : pass.ChangesBy (Declaration.mapForm f)) (hf : ∀ form : Form, form.Solid c → (f form).Solid c)
    (hg : g.Solid c) : (pass.run g).state.Solid c := by
  rw [h g]
  exact hg.mapNodes fun d hd => hf d.form hd

/-- One pass keeps members everywhere, one of them under its condition. -/
theorem run_solid {pass : Pass} (h : g.Solid c) (hlast : pass = .simplifyOptional → g.Lasting) :
    (pass.run g).state.Solid c := by
  cases pass with
  | exportTypes =>
      refine h.mapNodes fun d hd => ?_
      unfold Declaration.markExported
      split <;> exact hd
  | readOnly => exact changesBy_readOnly.solid (fun _ => Form.Solid.readOnly) h
  | enumAsTypes => exact changesBy_enumAsTypes.solid (fun _ => Form.Solid.enumAsType) h
  | trimEnumPrefix => exact changesBy_trimEnumPrefix.solid (fun _ => Form.Solid.trimMembers) h
  | enumLists => exact h.enumLists
  | simplifyOptional => exact Graph.solid_simplifyOptional_iff.mpr ⟨h, hlast rfl⟩
  | notNullMaps =>
      exact changesBy_notNullMaps.solid (fun _ => Form.Solid.mapSubterms Expr.isNull_notNullMap
        fun _ => Expr.Solid.notNullMap) h
  | nullUnionSlices =>
      exact changesBy_nullUnionSlices.solid (fun _ => Form.Solid.mapSubterms
        (fun e => by cases e <;> rfl) fun _ => Expr.Solid.notNullElements) h
  | interfaceToType =>
      exact changesBy_interfaceToType.solid (fun _ => Form.solid_interfaceToType_iff.mpr) h
  | missingReferencesToAny => exact h.mapNodes fun d hd => hd.repair _

/-- Several passes keep members everywhere. -/
theorem applyAll_solid {passes : List Pass} (h : g.Solid c) (hlast : g.LastingBefore passes) :
    (g.applyAll (passes.map change)).state.Solid c := by
  induction passes generalizing g with
  | nil => exact h
  | cons pass rest ih =>
      rw [state_applyAll_cons]
      refine ih (run_solid h fun hpass => ?_) fun before after hrest => ?_
      · exact hlast [] rest (by rw [hpass, List.nil_append])
      · rw [← state_applyAll_cons]
        exact hlast (pass :: before) after (by rw [hrest, List.cons_append])

/-- Where every union has an arm other than null, this stays so. -/
theorem applyAll_solid_of_nonNull (h : g.Solid false) (passes : List Pass) :
    (g.applyAll (passes.map change)).state.Solid false := by
  induction passes generalizing g with
  | nil => exact h
  | cons pass rest ih =>
      rw [state_applyAll_cons]
      exact ih (run_solid h fun _ => h.lasting)

/-- Where every union, every intersection and every enum has a member, one pass leaves an empty union
exactly if it drops null from optional members and one of these is a union of nulls only. Passes in a
row leave none if this is never the case, in particular if every union has an arm other than null. -/
theorem unions_keep_members (h : g.Solid true) :
    (∀ pass : Pass, ∃ g', (g.apply pass.change).result = .ok g' ∧
      (g'.Solid true ↔ (pass = .simplifyOptional → g.Lasting))) ∧
    ∀ passes : List Pass, g.LastingBefore passes ∨ g.Solid false →
      ∃ g', (g.applyAll (passes.map change)).result = .ok g' ∧ g'.Solid true := by
  constructor
  · intro pass
    refine ⟨_, result_apply pass g, fun hsolid hpass => ?_, run_solid h⟩
    subst hpass
    exact (Graph.solid_simplifyOptional_iff.mp hsolid).2
  · intro passes hpasses
    refine ⟨_, result_applyAll passes g, ?_⟩
    rcases hpasses with hlast | hsolid
    · exact applyAll_solid h hlast
    · exact (applyAll_solid_of_nonNull hsolid passes).weaken

end Pass

/-- A user with an optional name that may be null, and an enum. -/
def userGraph : Graph where
  nodes := .ofList [("User", { form := user }), ("Role", { form := role })]
where
  user : Form := .record ⟨"User", some "m", ""⟩ [] []
    [⟨"Nick", [], true, .nullable (.keyword .string), []⟩,
     ⟨"Role", [], false, .reference ⟨"Role", some "m", ""⟩ [], []⟩]
  role : Form := .enumeration ⟨"Role", some "m", ""⟩ [⟨"Admin", none, []⟩, ⟨"Guest", none, []⟩]

/-- All passes in a row. -/
theorem unions_keep_members_user : userGraph.Solid true ∧
    ∃ g', (userGraph.applyAll (Pass.all.map Pass.change)).result = .ok g' ∧ g'.Solid true := by
  have hsolid : userGraph.Solid false := by decide
  exact ⟨hsolid.weaken, (Pass.unions_keep_members hsolid.weaken).2 Pass.all (.inr hsolid)⟩

/-- An optional field of which only null is known. -/
def nullFieldGraph : Graph where
  nodes := .ofList [("A", { form := a })]
where
  a : Form := .record ⟨"A", none, ""⟩ [] [] [⟨"x", [], true, .union [.null], []⟩]

/-- Dropping null leaves a union without arms, which is printed as nothing. -/
theorem union_without_arms : nullFieldGraph.Solid true ∧ ¬nullFieldGraph.Lasting ∧
    ∃ g' d, (nullFieldGraph.applyAll [Pass.simplifyOptional.change]).result = .ok g' ∧
      g'.get? "A" = some d ∧ .union [] ∈ d.subterms ∧ ¬g'.Solid true ∧
      ({} : Style).print d = .ok "interface A \x7b\n    x?: ;\n\x7d" := by
  have hget : nullFieldGraph.simplifyOptional.get? "A" =
      some { form := .record ⟨"A", none, ""⟩ [] [] [⟨"x", [], true, .union [], []⟩] } := rfl
  refine ⟨by decide, by decide, _, _, Pass.result_applyAll [.simplifyOptional] nullFieldGraph, hget,
    List.mem_cons_self, fun hsolid => ?_, by decide⟩
  have hunion := (Graph.solid_iff.mp hsolid "A" _ hget).1 _ List.mem_cons_self
  exact (Expr.isSolid_true_iff.mp hunion).1 rfl

end TypeBridge
