import Mathlib.Data.List.Pairwise
import TypeBridge.Proofs.NullArms
import TypeBridge.Proofs.Pass

/-!
Passes that may run in either order. Exporting, dropping null in the three ways and writing
interfaces as aliases commute with each other, and all but the last of them commute with making
members readonly. Readonly and the interface form commute on records that extend nothing; the fields
of a record with parents move into an intersection, which making readonly does not enter.
-/

namespace TypeBridge

open Function (Commute)

/-! ### Readonly types -/

/-- Makes a member and its type readonly. -/
def Property.readOnly (p : Property) : Property :=
  { p with modifiers := withReadonly p.modifiers, type := p.type.readOnly }

theorem readonly_mem_withReadonly (modifiers : List Modifier) :
    Modifier.readonly ∈ withReadonly modifiers := by
  unfold withReadonly
  split
  · rename_i h
    exact List.contains_iff_mem.mp h
  · exact List.mem_append_right _ List.mem_cons_self

namespace Expr

theorem readOnlyList_eq_map (es : List Expr) : readOnlyList es = es.map readOnly := by
  induction es with
  | nil => rfl
  | cons e rest ih => rw [readOnlyList, ih, List.map_cons]

theorem readOnlyMembers_eq_map (members : List Property) :
    readOnlyMembers members = members.map Property.readOnly := by
  induction members with
  | nil => rfl
  | cons m rest ih =>
      rw [readOnlyMembers, ih, List.map_cons]
      rfl

theorem armwise_readOnly : Armwise readOnly where
  isNull e := by cases e <;> simp [readOnly, isNull]
  isMap e := by cases e <;> simp [readOnly, isMap]
  arms e := by cases e <;> simp [readOnly, arms?, readOnlyList_eq_map]

/-- Arrays and tuples, which become readonly as a whole. -/
def isList : Expr → Bool
  | .array _ => true
  | .tuple _ _ => true
  | _ => false

theorem readOnly_of_isList {e : Expr} (h : e.isList = true) : e.readOnly = .operator .readonly e := by
  cases e with
  | array elem => rw [readOnly]
  | tuple elem length => rw [readOnly]
  | _ => cases h

theorem isList_mapChildren (f : Expr → Expr) (e : Expr) : (e.mapChildren f).isList = e.isList := by
  cases e <;> rfl

/-- What is no list becomes readonly in its children, if at all. -/
theorem readOnly_mapChildren {f : Expr → Expr} {e : Expr} (hlist : e.isList = false)
    (h : ∀ child ∈ e.children, f child.readOnly = (f child).readOnly) :
    e.readOnly.mapChildren f = (e.mapChildren f).readOnly := by
  cases e with
  | array elem => cases hlist
  | tuple elem length => cases hlist
  | union arms =>
      simp only [readOnly, mapChildren, readOnlyList_eq_map, List.map_map, union.injEq]
      exact List.map_congr_left h
  | typeLiteral members =>
      simp only [readOnly, mapChildren, readOnlyMembers_eq_map, List.map_map, typeLiteral.injEq]
      refine List.map_congr_left fun m hm => ?_
      have htype := h m.type (List.mem_map_of_mem hm)
      simp [Property.mapType, Property.readOnly, htype]
  | _ => simp [readOnly, mapChildren]

/-- A walk commutes with making readonly if it keeps lists and does not touch what is readonly, and
if its steps commute with it everywhere else. -/
theorem mapSubterms_commute_readOnly {f : Expr → Expr}
    (hoperator : ∀ op inner, f (.operator op inner) = .operator op inner)
    (harray : ∀ elem, (f (.array elem)).isList = true)
    (htuple : ∀ elem length, (f (.tuple elem length)).isList = true)
    (hother : ∀ e, e.isList = false → (f e).readOnly = f e.readOnly) :
    Commute (mapSubterms f) readOnly := by
  have hlist : ∀ e : Expr, e.isList = true → (f e).isList = true := by
    intro e h
    cases e with
    | array elem => exact harray elem
    | tuple elem length => exact htuple elem length
    | _ => cases h
  intro e
  induction e using children_induction with
  | inherited e ih =>
      cases hkind : e.isList with
      | true =>
          have hchanged : (mapSubterms f e).isList = true := by
            rw [mapSubterms_eq]
            exact hlist _ (by rw [isList_mapChildren, hkind])
          rw [readOnly_of_isList hkind, readOnly_of_isList hchanged, mapSubterms, hoperator]
      | false =>
          calc mapSubterms f e.readOnly = f (e.readOnly.mapChildren (mapSubterms f)) :=
                mapSubterms_eq f e.readOnly
            _ = f (e.mapChildren (mapSubterms f)).readOnly := by rw [readOnly_mapChildren hkind ih]
            _ = (f (e.mapChildren (mapSubterms f))).readOnly :=
                (hother _ (by rw [isList_mapChildren, hkind])).symm
            _ = (mapSubterms f e).readOnly := by rw [mapSubterms_eq f e]

theorem simplifyOptional_commute_readOnly :
    Commute Property.simplifyOptional Property.readOnly := by
  intro p
  unfold Property.simplifyOptional Property.readOnly
  cases hoptional : p.optional <;>
    simp [hoptional, armwise_readOnly.nullSafe.dropNull_commute p.type]

theorem simplifyMembers_readOnly (e : Expr) : e.simplifyMembers.readOnly = e.readOnly.simplifyMembers := by
  cases e with
  | typeLiteral members =>
      simp only [simplifyMembers, readOnly, readOnlyMembers_eq_map, List.map_map,
        simplifyOptional_commute_readOnly.comp_eq]
  | _ => simp [simplifyMembers, readOnly]

theorem notNullElements_readOnly {e : Expr} (h : e.isList = false) :
    e.notNullElements.readOnly = e.readOnly.notNullElements := by
  cases e with
  | array elem => cases h
  | tuple elem length => cases h
  | _ => simp [notNullElements, readOnly]

theorem walk_simplifyMembers_readOnly : Commute (mapSubterms simplifyMembers) readOnly :=
  mapSubterms_commute_readOnly (fun _ _ => rfl) (fun _ => rfl) (fun _ _ => rfl)
    fun e _ => simplifyMembers_readOnly e

theorem walk_notNullMap_readOnly : Commute (mapSubterms notNullMap) readOnly :=
  mapSubterms_commute_readOnly (fun _ _ => rfl) (fun _ => rfl) (fun _ _ => rfl)
    fun e _ => armwise_readOnly.notNullMap_commute e

theorem walk_notNullElements_readOnly : Commute (mapSubterms notNullElements) readOnly :=
  mapSubterms_commute_readOnly (fun _ _ => rfl) (fun _ => rfl) (fun _ _ => rfl)
    fun _ h => notNullElements_readOnly h

end Expr

/-! ### Forms -/

namespace Form

variable {f : Expr → Expr}

theorem mapExprs_record (f : Expr → Expr) (name : Identifier) (params : List TypeParameter)
    (heritage : List Heritage) (fields : List Property) :
    (record name params heritage fields).mapExprs f =
      .record name (params.map (TypeParameter.mapExprs f))
        (heritage.map fun h => { h with args := h.args.map f })
        (fields.map (Property.mapType f)) := rfl

theorem simplifyFields_commute (h : Commute f Expr.dropNull) :
    Commute (mapExprs f) simplifyFields := by
  intro form
  cases form with
  | record name params heritage fields =>
      simp only [simplifyFields, mapExprs_record, List.map_map,
        (Expr.simplifyOptional_mapType h).comp_eq]
  | _ => rfl

/-- Dropping null from optional members, and a walk that gets along with dropping null. -/
theorem mapSubterms_commute_simplifyOptional (h : Commute (Expr.mapSubterms f) Expr.dropNull)
    (hwalk : Commute (Expr.mapSubterms f) (Expr.mapSubterms Expr.simplifyMembers)) :
    Commute (mapSubterms f) fun form => form.simplifyFields.mapSubterms Expr.simplifyMembers :=
  (mapExprs_commute hwalk).comp_right (simplifyFields_commute h)

theorem mapSubterms_commute_readOnly (h : Commute (Expr.mapSubterms f) Expr.readOnly) :
    Commute (mapSubterms f) readOnly := by
  have hproperty : Commute (Property.mapType (Expr.mapSubterms f)) Property.readOnly := by
    intro p
    simp [Property.mapType, Property.readOnly, h p.type]
  intro form
  cases form with
  | record name params heritage fields =>
      simp only [readOnly, mapSubterms, mapExprs_record, Expr.readOnlyMembers_eq_map, List.map_map,
        hproperty.comp_eq]
  | typeAlias name params type => simp only [readOnly, mapSubterms, mapExprs, h type]
  | _ => rfl

theorem simplifyFields_commute_readOnly : Commute simplifyFields readOnly := by
  intro form
  cases form with
  | record name params heritage fields =>
      simp only [readOnly, simplifyFields, Expr.readOnlyMembers_eq_map, List.map_map,
        Expr.simplifyOptional_commute_readOnly.comp_eq]
  | _ => rfl

/-- The type that a record with these parents and fields becomes. -/
def objectType (parents : List Expr) (fields : List Property) : Expr :=
  if parents.isEmpty then .typeLiteral fields else .intersection (parents ++ [.typeLiteral fields])

theorem interfaceToType_record (name : Identifier) (params : List TypeParameter)
    (heritage : List Heritage) (fields : List Property) :
    (record name params heritage fields).interfaceToType =
      .typeAlias name params (objectType (heritage.flatMap Heritage.args) fields) := rfl

/-- A walk goes through a record that became a type as it goes through the record, and makes its
step at the object type as well. -/
theorem mapSubterms_interfaceToType (step : Property → Property)
    (hliteral : ∀ members, f (.typeLiteral members) = .typeLiteral (members.map step))
    (hintersection : ∀ parts, f (.intersection parts) = .intersection parts) (name : Identifier)
    (params : List TypeParameter) (heritage : List Heritage) (fields : List Property) :
    (record name params heritage fields).interfaceToType.mapSubterms f =
      (record name (params.map (TypeParameter.mapExprs (Expr.mapSubterms f)))
        (heritage.map fun h => { h with args := h.args.map (Expr.mapSubterms f) })
        (fields.map (step ∘ Property.mapType (Expr.mapSubterms f)))).interfaceToType := by
  have hfields : (Expr.typeLiteral fields).mapSubterms f =
      .typeLiteral (fields.map (step ∘ Property.mapType (Expr.mapSubterms f))) := by
    rw [Expr.mapSubterms_eq, Expr.mapChildren, hliteral, List.map_map]
  have hparents : (heritage.map fun h : Heritage =>
      { h with args := h.args.map (Expr.mapSubterms f) }).flatMap Heritage.args =
        (heritage.flatMap Heritage.args).map (Expr.mapSubterms f) := by
    rw [List.flatMap_map, List.map_flatMap]
  rw [interfaceToType_record, interfaceToType_record, hparents, mapSubterms, mapExprs]
  cases heritage.flatMap Heritage.args with
  | nil => exact congrArg _ hfields
  | cons parent rest =>
      simp [objectType, Expr.mapSubterms_eq f (.intersection _), Expr.mapChildren, hintersection,
        hfields]

theorem mapSubterms_commute_interfaceToType
    (hliteral : ∀ members, f (.typeLiteral members) = .typeLiteral members)
    (hintersection : ∀ parts, f (.intersection parts) = .intersection parts) :
    Commute (mapSubterms f) interfaceToType := by
  intro form
  cases form with
  | record name params heritage fields =>
      rw [mapSubterms_interfaceToType id (by simpa using hliteral) hintersection]
      rfl
  | _ => rfl

theorem simplifyOptional_commute_interfaceToType :
    Commute (fun form => form.simplifyFields.mapSubterms Expr.simplifyMembers) interfaceToType := by
  have hdrop := Expr.armwise_simplifyMembers.nullSafe.dropNull_commute
  intro form
  cases form with
  | record name params heritage fields =>
      have hwalk := mapSubterms_interfaceToType (f := Expr.simplifyMembers)
        Property.simplifyOptional (fun _ => rfl) (fun _ => rfl) name params heritage fields
      rw [← (Expr.simplifyOptional_mapType hdrop).comp_eq, ← List.map_map] at hwalk
      exact hwalk
  | _ => rfl

theorem readOnly_objectType_nil (fields : List Property) :
    (objectType [] fields).readOnly = objectType [] (Expr.readOnlyMembers fields) := by
  simp [objectType, Expr.readOnly]

/-- Making readonly does not enter an intersection. -/
theorem readOnly_objectType_cons (parent : Expr) (rest : List Expr) (fields : List Property) :
    (objectType (parent :: rest) fields).readOnly = objectType (parent :: rest) fields := by
  simp [objectType, Expr.readOnly]

theorem interfaceToType_readOnly_record (name : Identifier) (params : List TypeParameter)
    (heritage : List Heritage) (fields : List Property) :
    (record name params heritage fields).readOnly.interfaceToType =
      .typeAlias name params
        (objectType (heritage.flatMap Heritage.args) (Expr.readOnlyMembers fields)) := rfl

/-- Readonly and the interface form commute on a form, unless it is a record with parents and with
fields that are not readonly. -/
theorem readOnly_interfaceToType_iff (form : Form) :
    form.interfaceToType.readOnly = form.readOnly.interfaceToType ↔
      ∀ name params heritage fields, form = .record name params heritage fields →
        heritage.flatMap Heritage.args ≠ [] → Expr.readOnlyMembers fields = fields := by
  cases form with
  | record name params heritage fields =>
      have hself : (∀ name' params' heritage' fields',
          record name params heritage fields = .record name' params' heritage' fields' →
            heritage'.flatMap Heritage.args ≠ [] → Expr.readOnlyMembers fields' = fields') ↔
          (heritage.flatMap Heritage.args ≠ [] → Expr.readOnlyMembers fields = fields) := by
        constructor
        · exact fun h => h name params heritage fields rfl
        · rintro h name' params' heritage' fields' heq
          cases heq
          exact h
      rw [hself, interfaceToType_readOnly_record, interfaceToType_record, readOnly, typeAlias.injEq]
      cases heritage.flatMap Heritage.args with
      | nil => simp [readOnly_objectType_nil]
      | cons parent rest =>
          rw [readOnly_objectType_cons]
          simp [objectType, eq_comm]
  | _ => simp [interfaceToType, readOnly]

end Form

/-! ### Passes -/

namespace Pass

/-- The passes that may run in any order. -/
def independent : List Pass :=
  [exportTypes, simplifyOptional, notNullMaps, nullUnionSlices, interfaceToType]

open Declaration (mapForm_commute markExported_commute)

theorem commute_exportTypes {p : Pass} {f : Form → Form} (hp : p.ChangesBy (Declaration.mapForm f)) :
    exportTypes.Commute p :=
  changesBy_exportTypes.commute hp (markExported_commute f)

theorem commute_notNullMaps_nullUnionSlices : notNullMaps.Commute nullUnionSlices :=
  changesBy_notNullMaps.commute changesBy_nullUnionSlices
    (mapForm_commute (Form.mapExprs_commute Expr.walks_notNullMap_notNullElements))

theorem commute_notNullMaps_simplifyOptional : notNullMaps.Commute simplifyOptional :=
  changesBy_notNullMaps.commute changesBy_simplifyOptional
    (mapForm_commute (Form.mapSubterms_commute_simplifyOptional
      Expr.nullSafe_notNullMap.dropNull_commute Expr.walks_notNullMap_simplifyMembers))

theorem commute_nullUnionSlices_simplifyOptional : nullUnionSlices.Commute simplifyOptional :=
  changesBy_nullUnionSlices.commute changesBy_simplifyOptional
    (mapForm_commute (Form.mapSubterms_commute_simplifyOptional
      Expr.armwise_notNullElements.nullSafe.dropNull_commute
      Expr.walks_notNullElements_simplifyMembers))

theorem commute_notNullMaps_interfaceToType : notNullMaps.Commute interfaceToType :=
  changesBy_notNullMaps.commute changesBy_interfaceToType
    (mapForm_commute (Form.mapSubterms_commute_interfaceToType (fun _ => rfl) fun _ => rfl))

theorem commute_nullUnionSlices_interfaceToType : nullUnionSlices.Commute interfaceToType :=
  changesBy_nullUnionSlices.commute changesBy_interfaceToType
    (mapForm_commute (Form.mapSubterms_commute_interfaceToType (fun _ => rfl) fun _ => rfl))

theorem commute_simplifyOptional_interfaceToType : simplifyOptional.Commute interfaceToType :=
  changesBy_simplifyOptional.commute changesBy_interfaceToType
    (mapForm_commute Form.simplifyOptional_commute_interfaceToType)

theorem commute_notNullMaps_readOnly : notNullMaps.Commute readOnly :=
  changesBy_notNullMaps.commute changesBy_readOnly
    (mapForm_commute (Form.mapSubterms_commute_readOnly Expr.walk_notNullMap_readOnly))

theorem commute_nullUnionSlices_readOnly : nullUnionSlices.Commute readOnly :=
  changesBy_nullUnionSlices.commute changesBy_readOnly
    (mapForm_commute (Form.mapSubterms_commute_readOnly Expr.walk_notNullElements_readOnly))

theorem commute_simplifyOptional_readOnly : simplifyOptional.Commute readOnly :=
  changesBy_simplifyOptional.commute changesBy_readOnly
    (mapForm_commute (Function.Commute.comp_left
      (Form.mapSubterms_commute_readOnly Expr.walk_simplifyMembers_readOnly)
      Form.simplifyFields_commute_readOnly))

theorem commute_self_of_mem_independent {p : Pass} (h : p ∈ independent) : p.Commute p := by
  simp only [independent, List.mem_cons, List.not_mem_nil, or_false] at h
  rcases h with rfl | rfl | rfl | rfl | rfl
  · exact changesBy_exportTypes.commute_self
  · exact changesBy_simplifyOptional.commute_self
  · exact changesBy_notNullMaps.commute_self
  · exact changesBy_nullUnionSlices.commute_self
  · exact changesBy_interfaceToType.commute_self

theorem pairwise_commute_independent : independent.Pairwise Commute := by
  simp only [independent, List.pairwise_cons, List.mem_cons, List.not_mem_nil, or_false,
    forall_eq_or_imp, forall_eq, false_implies, implies_true, List.Pairwise.nil, and_true]
  exact ⟨⟨commute_exportTypes changesBy_simplifyOptional, commute_exportTypes changesBy_notNullMaps,
      commute_exportTypes changesBy_nullUnionSlices, commute_exportTypes changesBy_interfaceToType⟩,
    ⟨commute_notNullMaps_simplifyOptional.symm, commute_nullUnionSlices_simplifyOptional.symm,
      commute_simplifyOptional_interfaceToType⟩,
    ⟨commute_notNullMaps_nullUnionSlices, commute_notNullMaps_interfaceToType⟩,
    commute_nullUnionSlices_interfaceToType⟩

/-- Any two independent passes give the same graph in either order, and so do making members readonly
and each of the other independent passes but the one that writes interfaces as aliases. -/
theorem independent_passes_commute :
    (∀ p ∈ independent, ∀ q ∈ independent, p.Commute q) ∧
    ∀ p ∈ [exportTypes, simplifyOptional, notNullMaps, nullUnionSlices], readOnly.Commute p := by
  constructor
  · intro p hp q hq
    have hsymm : Std.Symm Commute := ⟨fun _ _ h => h.symm⟩
    by_cases heq : p = q
    · subst heq
      exact commute_self_of_mem_independent hp
    · exact pairwise_commute_independent.forall hp hq heq
  · simp only [List.mem_cons, List.not_mem_nil, or_false, forall_eq_or_imp, forall_eq]
    exact ⟨(commute_exportTypes changesBy_readOnly).symm, commute_simplifyOptional_readOnly.symm,
      commute_notNullMaps_readOnly.symm, commute_nullUnionSlices_readOnly.symm⟩

/-- Making members readonly reaches all fields of a record that is not yet an alias. After that it
reaches them if the record has no parents, so the order of the two passes does not matter on a graph
exactly if the fields of all records with parents are readonly already. -/
theorem readOnly_of_interface_form (g : Graph) :
    (CommuteOn g interfaceToType readOnly ↔
      ∀ key d name params heritage fields, g.get? key = some d →
        d.form = .record name params heritage fields → heritage.flatMap Heritage.args ≠ [] →
        Expr.readOnlyMembers fields = fields) ∧
    ∃ g₁ g₂, g.applyAll [interfaceToType.change, readOnly.change] = .done g₁ ∧
      g.applyAll [readOnly.change, interfaceToType.change] = .done g₂ ∧
      ∀ key d name params heritage fields, g.get? key = some d →
        d.form = .record name params heritage fields →
        (∀ m ∈ Expr.readOnlyMembers fields, .readonly ∈ m.modifiers) ∧
        g₂.get? key = some { d with form := .typeAlias name params (Form.objectType
          (heritage.flatMap Heritage.args) (Expr.readOnlyMembers fields)) } ∧
        (heritage.flatMap Heritage.args = [] → g₁.get? key = g₂.get? key) := by
  constructor
  · rw [changesBy_interfaceToType.commuteOn_iff changesBy_readOnly]
    constructor
    · intro h key d name params heritage fields hget hform
      have hforms := congrArg Declaration.form (h key d hget)
      exact (Form.readOnly_interfaceToType_iff d.form).mp hforms name params heritage fields hform
    · intro h key d hget
      have hforms := (Form.readOnly_interfaceToType_iff d.form).mpr
        fun name params heritage fields => h key d name params heritage fields hget
      simp only [Declaration.mapForm, hforms]
  · refine ⟨_, _, changesBy_interfaceToType.applyAll changesBy_readOnly g,
      changesBy_readOnly.applyAll changesBy_interfaceToType g, ?_⟩
    intro key d name params heritage fields hget hform
    refine ⟨fun m hm => ?_, ?_, fun hparents => ?_⟩
    · rw [Expr.readOnlyMembers_eq_map] at hm
      obtain ⟨m, -, rfl⟩ := List.mem_map.mp hm
      exact readonly_mem_withReadonly m.modifiers
    · rw [Graph.get?_mapNodes, hget, Option.map_some, Declaration.mapForm, Declaration.mapForm,
        hform, Form.interfaceToType_readOnly_record]
    · have hforms := (Form.readOnly_interfaceToType_iff d.form).mpr
        fun name' params' heritage' fields' hform' hsome => by
          rw [hform] at hform'
          cases hform'
          exact absurd hparents hsome
      simp only [Graph.get?_mapNodes, hget, Option.map_some, Declaration.mapForm, hforms]

end Pass

/-- The modifiers of all members of the object types in a declaration. -/
def Declaration.memberModifiers (d : Declaration) : List (List Modifier) :=
  d.subterms.flatMap fun e =>
    match e with
    | .typeLiteral members => members.map PropertyOf.modifiers
    | _ => []

/-- A user, and an administrator that extends it by a level. -/
def adminGraph : Graph where
  nodes := .ofList [("User", ⟨[], none, [], user⟩), ("Admin", ⟨[], none, [], admin⟩)]
where
  user : Form := .record ⟨"User", some "m", ""⟩ [] [] [⟨"ID", [], false, .keyword .string, []⟩]
  admin : Form := .record ⟨"Admin", some "m", ""⟩ []
    [⟨.extending, [.reference ⟨"User", some "m", ""⟩ []]⟩]
    [⟨"Level", [], false, .keyword .number, []⟩]

/-- The fields of a record that extends another stay writable if it is made an alias first. -/
theorem writable_in_intersection :
    ¬ Pass.CommuteOn adminGraph .interfaceToType .readOnly ∧
    ∃ g d, adminGraph.applyAll [Pass.interfaceToType.change, Pass.readOnly.change] = .done g ∧
      g.get? "Admin" = some d ∧ d.memberModifiers = [[]] := by
  have hadmin : adminGraph.get? "Admin" = some ⟨[], none, [], adminGraph.admin⟩ := rfl
  constructor
  · rw [Pass.changesBy_interfaceToType.commuteOn_iff Pass.changesBy_readOnly]
    intro h
    have hmodifiers := congrArg Declaration.memberModifiers (h "Admin" _ hadmin)
    exact absurd hmodifiers (by decide)
  · refine ⟨_, ⟨[], none, [], adminGraph.admin.interfaceToType.readOnly⟩,
      Pass.changesBy_interfaceToType.applyAll Pass.changesBy_readOnly adminGraph, ?_, by decide⟩
    rw [Graph.get?_mapNodes, hadmin]
    rfl

end TypeBridge
