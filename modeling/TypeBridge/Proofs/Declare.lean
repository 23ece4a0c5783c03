import TypeBridge.Declare
import TypeBridge.Proofs.MappedTypes

/-!
What declaring an object announces and emits. A judgement about mappings that holds of every mapped type
holds of declaring a type, since declaring only collects what its parts yield and simplifies their
parameters. So a type announces declared objects that its types name; it emits nothing or one
declaration under its own name, in which references are accounted for; and its own parameters come
first, before those that its parts mention. Only a basic type may be filled later with enum members. A
constant announces at most its own type, and one of a named type emits one member for that type.
-/

namespace TypeBridge

/-- Every name that a declaration refers to is allowed. -/
def Declaration.Within (allowed : Identifier → Prop) (d : Declaration) : Prop :=
  ∀ name args, Expr.reference name args ∈ d.subterms → allowed name

theorem Declaration.within_of_exprs {allowed : Identifier → Prop} {d : Declaration}
    (h : ∀ e ∈ d.form.exprs, e.Within allowed) : d.Within allowed := by
  intro name args hmem
  obtain ⟨e, he, hmem⟩ := List.mem_flatMap.mp hmem
  exact h e he name args hmem

/-- Whether a type describes behaviour, which has no counterpart: functions, and interfaces without
an embedded element. -/
def TypeDecl.isBehavioral (d : TypeDecl) : Bool :=
  match d.underlying with
  | .signature => true
  | .interface [] _ => true
  | _ => false

/-- Whether constants of a type may become members of an enum. -/
def TypeDecl.isBasic (d : TypeDecl) : Bool :=
  match d.underlying with
  | .basic _ => true
  | _ => false

theorem TypeDecl.isBasic_of_isBehavioral {d : TypeDecl} (h : d.isBehavioral = true) :
    d.isBasic = false := by
  unfold TypeDecl.isBehavioral at h
  split at h
  · rename_i hunderlying
    rw [TypeDecl.isBasic, hunderlying]
  · rename_i hunderlying
    rw [TypeDecl.isBasic, hunderlying]
  · cases h

/-- The enum member that a constant becomes. -/
def ConstDecl.member (c : ConstDecl) : EnumMember :=
  { name := c.name, value := some (.literal c.value.literal), comments := docComments c.doc }

theorem ConstDecl.mem_objects_of_enumType? {c : ConstDecl} {x : ObjectName}
    (h : c.enumType? = some x) : x ∈ c.type.objects := by
  unfold ConstDecl.enumType? at h
  split at h
  · rename_i package name typeArgs underlying htype
    cases h
    rw [htype]
    exact SourceType.mem_objects_named package name typeArgs underlying
  · cases h

/-- What a field adds: types that satisfy `V`, and parameters that satisfy `K`. -/
structure FieldPart.Has (V : Expr → Prop) (K : TypeParameter → Prop) (part : FieldPart) : Prop where
  parents : ∀ e ∈ part.parents, V e
  members : ∀ m ∈ part.members, V m.type
  typeParams : ∀ q ∈ part.typeParams, K q

namespace Workspace

open Mapping (Judgement)

variable {w : Workspace} {V : Expr → Prop} {K : TypeParameter → Prop}

/-! ### Declaring a type -/

/-- What a type emits, given its own parameters: nothing if it describes behaviour, a declaration under
its name with these parameters and those that its parts mention, simplified, or an alias without
parameters that waits for enum members. What is mapped satisfies `V`, what is mentioned `K`. -/
inductive EmittedBy (w : Workspace) (V : Expr → Prop) (K : TypeParameter → Prop) (p : Package)
    (d : TypeDecl) (params : List TypeParameter) : Emission → Prop
  | nothing (h : d.isBehavioral = true) : EmittedBy w V K p d params .nothing
  | define {node : Declaration} {mentioned : List TypeParameter} (hbasic : d.isBasic = false)
      (hname : node.form.name? = some (w.identifier p.path d.name))
      (hmentioned : ∀ q ∈ mentioned, K q)
      (hparams : TypeParameter.simplify (params ++ mentioned) = .ok node.form.typeParams)
      (hexprs : ∀ e ∈ node.form.exprs, V e ∨ ∃ q ∈ node.form.typeParams, e ∈ q.exprs) :
      EmittedBy w V K p d params (.define (w.identifier p.path d.name).emitted node)
  | fill {kind : BasicKind} {mapped : MappedType} (hbasic : d.underlying = .basic kind)
      (hmapped : mapBasic kind = .ok mapped) :
      EmittedBy w V K p d params
        (.fill (w.identifier p.path d.name).emitted (w.aliasOf p d [] mapped))

theorem subtypes_pointee (t : SourceType) : t.pointee.subtypes ⊆ t.subtypes := by
  cases t with
  | pointer elem => exact List.subset_cons_self _ _
  | _ => exact List.Subset.refl _

/-- The declared parameters are made under their own names, in order. -/
theorem meets_declaredParams_names (w : Workspace) (params : List TypeParamDecl) :
    (w.declaredParams params).Meets (fun kept =>
      kept.map TypeParameter.name = params.map fun q => { name := q.name }) fun _ => True := by
  induction params with
  | nil => exact Mapping.Meets.pure rfl
  | cons q rest ih =>
      have hq : (w.mapType (.typeParam q.name q.constraint)).Meets (fun mapped =>
          mapped.typeParams.map TypeParameter.name = [{ name := q.name }]) fun _ => True := by
        rw [mapType, mapType_eq_mapWith, mapWith_typeParam]
        exact (Mapping.Meets.any _).bind fun _ _ => Mapping.Meets.pure rfl
      refine hq.bind fun mapped hmapped => ih.bind fun kept hkept => Mapping.Meets.pure ?_
      rw [List.map_append, hmapped, hkept, List.map_cons, List.singleton_append]

/-- What a judgement has to know of declaring a type: how the types in it are mapped, and which errors
declaring adds. -/
structure Maps (J : Judgement) (w : Workspace) (V : Expr → Prop) (K : TypeParameter → Prop)
    (Object : ObjectName → Prop) (Param : String → SourceType → Prop) : Prop
    extends Building V K J.MayFail where
  mapType : ∀ t : SourceType, t.Covered w Object Param →
    J.Holds MappedType (w.mapType t) (MappedType.Has V K)
  structTag : ∀ owner field cause, J.MayFail (.structTag owner field cause)

namespace Maps

variable {J : Judgement} {Object : ObjectName → Prop} {Param : String → SourceType → Prop}
  {p : Package} {d : TypeDecl} {params : List TypeParameter}

theorem holds_declaredParams (h : Maps J w V K Object Param) {params : List TypeParamDecl}
    (hcovered : ∀ q ∈ params, (SourceType.typeParam q.name q.constraint).Covered w Object Param) :
    J.Holds (List TypeParameter) (w.declaredParams params) fun kept => ∀ q ∈ kept, K q := by
  induction params with
  | nil => exact J.pure (List.forall_mem_nil _)
  | cons q rest ih =>
      have hq := h.mapType _ (hcovered q List.mem_cons_self)
      have hrest := ih fun q hq => hcovered q (List.mem_cons_of_mem _ hq)
      refine J.bind hq fun mapped hmapped _ => J.bind hrest fun kept hkept _ => J.pure ?_
      intro q hq
      exact (List.mem_append.mp hq).elim (hmapped.typeParams q) (hkept q)

theorem holds_fieldPart (h : Maps J w V K Object Param) {owner : String} {f : Field}
    (hf : f.type.Covered w Object Param) :
    J.Holds FieldPart (w.fieldPart owner f) (FieldPart.Has V K) := by
  unfold fieldPart
  split
  · exact J.fail (h.structTag _ _ _)
  · split
    · refine J.bind (h.mapType _ (hf.of_subset (subtypes_pointee _))) fun mapped hmapped _ =>
        J.pure ⟨fun e he => ?_, List.forall_mem_nil _, hmapped.typeParams⟩
      have hvalue := hmapped.value
      dsimp only at he
      split at he
      · rename_i name args hreference
        cases List.mem_singleton.mp he
        exact hreference ▸ hvalue
      · cases he
    · unfold memberPart
      split
      · exact J.pure ⟨List.forall_mem_nil _, List.forall_mem_nil _, List.forall_mem_nil _⟩
      · refine J.bind (h.mapType _ hf) fun mapped hmapped _ =>
          J.pure ⟨List.forall_mem_nil _, fun m hm => ?_, hmapped.typeParams⟩
        cases List.mem_singleton.mp hm
        exact hmapped.value

theorem holds_fieldParts (h : Maps J w V K Object Param) {owner : String} {fields : List Field}
    (hfields : ∀ f ∈ fields, f.type.Covered w Object Param) :
    J.Holds (List FieldPart) (w.fieldParts owner fields) fun parts =>
      ∀ part ∈ parts, part.Has V K := by
  induction fields with
  | nil => exact J.pure (List.forall_mem_nil _)
  | cons f rest ih =>
      have hf : J.Holds FieldPart (w.fieldPart owner f) (FieldPart.Has V K) :=
        h.holds_fieldPart (hfields f List.mem_cons_self)
      have hrest := ih fun f hf => hfields f (List.mem_cons_of_mem _ hf)
      exact J.bind hf fun part hpart _ => J.bind hrest fun parts hparts _ =>
        J.pure (List.forall_mem_cons.mpr ⟨hpart, hparts⟩)

theorem holds_simplify (h : Maps J w V K Object Param) {mentioned : List TypeParameter}
    (hparams : ∀ q ∈ params, K q) (hmentioned : ∀ q ∈ mentioned, K q) :
    J.Holds (List TypeParameter) (Mapping.ofExcept (TypeParameter.simplify (params ++ mentioned)))
      fun kept => TypeParameter.simplify (params ++ mentioned) = .ok kept := by
  have hall : ∀ q ∈ params ++ mentioned, K q := fun q hq =>
    (List.mem_append.mp hq).elim (hparams q) (hmentioned q)
  exact J.ofExcept ((h.simplify _ hall).self.mono fun _ hkept => hkept.2)

theorem holds_recordOf (h : Maps J w V K Object Param) {fields : List Field}
    (hunderlying : d.underlying = .struct fields) (hparams : ∀ q ∈ params, K q)
    (ht : (SourceType.struct fields).Covered w Object Param) :
    J.Holds Emission (w.recordOf p d params fields) (EmittedBy w V K p d params) := by
  have hfields : ∀ f ∈ fields, f.type.Covered w Object Param := fun f hf =>
    ht.of_subset (SourceType.subtypes_field hf)
  refine J.bind (h.holds_fieldParts hfields) fun parts hparts _ => ?_
  have hmentioned : ∀ q ∈ parts.flatMap FieldPart.typeParams, K q := by
    intro q hq
    obtain ⟨part, hpart, hq⟩ := List.mem_flatMap.mp hq
    exact (hparts part hpart).typeParams q hq
  refine J.bind (h.holds_simplify hparams hmentioned) fun kept hkept _ => J.pure ?_
  refine .define (by rw [TypeDecl.isBasic, hunderlying]) rfl hmentioned hkept fun e he => ?_
  rw [Form.exprs, List.mem_append, List.mem_append] at he
  rcases he with (he | he) | he
  · exact Or.inr (List.mem_flatMap.mp he)
  · have hparents : e ∈ parts.flatMap FieldPart.parents := by
      split at he
      · cases he
      · simpa using he
    obtain ⟨part, hpart, he⟩ := List.mem_flatMap.mp hparents
    exact Or.inl ((hparts part hpart).parents e he)
  · obtain ⟨m, hm, rfl⟩ := List.mem_map.mp he
    obtain ⟨part, hpart, hm⟩ := List.mem_flatMap.mp hm
    exact Or.inl ((hparts part hpart).members m hm)

theorem holds_genericAlias (h : Maps J w V K Object Param) {mapped : Mapping MappedType}
    (hbasic : d.isBasic = false) (hparams : ∀ q ∈ params, K q)
    (hmapped : J.Holds MappedType mapped (MappedType.Has V K)) :
    J.Holds Emission (w.genericAlias p d params mapped) (EmittedBy w V K p d params) := by
  refine J.bind hmapped fun mapped hmapped _ =>
    J.bind (h.holds_simplify hparams hmapped.typeParams) fun kept hkept _ => J.pure ?_
  refine .define hbasic rfl hmapped.typeParams hkept fun e he => ?_
  rcases List.mem_append.mp he with he | he
  · exact Or.inr (List.mem_flatMap.mp he)
  · cases List.mem_singleton.mp he
    exact Or.inl hmapped.value

theorem has_asUnion (h : Maps J w V K Object Param) {mapped : MappedType} (hmapped : mapped.Has V K) :
    (asUnion mapped).Has V K := by
  unfold asUnion
  split
  · exact hmapped
  · refine ⟨h.union _ fun e he => ?_, hmapped.typeParams⟩
    rw [List.mem_singleton.mp he]
    exact hmapped.value

theorem holds_declareAs (h : Maps J w V K Object Param) {t : SourceType}
    (hunderlying : d.underlying = t) (hparams : ∀ q ∈ params, K q)
    (ht : t.Covered w Object Param) :
    J.Holds Emission (w.declareAs p d params t) (EmittedBy w V K p d params) := by
  unfold declareAs
  split
  · exact h.holds_recordOf hunderlying hparams ht
  · rename_i kind
    refine J.bind (h.mapType _ ht) fun mapped _ hresult => J.pure ?_
    rw [Workspace.mapType, mapType_eq_mapWith, mapWith] at hresult
    exact .fill hunderlying hresult
  · exact J.pure (.nothing (by rw [TypeDecl.isBehavioral, hunderlying]))
  · rename_i constraint methods
    have hconstraint := ht.of_subset (SourceType.subtypes_embedded constraint methods)
    refine h.holds_genericAlias (by rw [TypeDecl.isBasic, hunderlying]) hparams ?_
    exact J.bind (h.mapType _ hconstraint) fun mapped hmapped _ => J.pure (h.has_asUnion hmapped)
  · exact J.fail (h.unsupported _ _)
  · exact J.pure (.nothing (by rw [TypeDecl.isBehavioral, hunderlying]))
  all_goals first
    | exact h.holds_genericAlias (by rw [TypeDecl.isBasic, hunderlying]) hparams (h.mapType _ ht)
    | exact J.fail (h.unsupported _ _)

/-- A judgement that holds of the mapping of types holds of declaring a type. -/
theorem holds_declareType (h : Maps J w V K Object Param)
    (hparams : ∀ q ∈ d.typeParams,
      (SourceType.typeParam q.name q.constraint).Covered w Object Param)
    (hunderlying : d.underlying.Covered w Object Param) :
    J.Holds Emission (w.declareType p d) fun e => ∃ params,
      (w.declaredParams d.typeParams).result = .ok params ∧ (∀ q ∈ params, K q) ∧
        EmittedBy w V K p d params e :=
  J.bind (h.holds_declaredParams hparams) fun params hkept hresult =>
    J.mono (h.holds_declareAs rfl hkept hunderlying) fun _ he => ⟨params, hresult, hkept, he⟩

end Maps

/-! ### Announced objects -/

/-- Declaring a type announces what its types name. -/
theorem refers_declareType {P : ObjectName → Prop}
    (hov : ∀ key t, w.overrides.get? key = some (.type t) → t.Mentions w P) {p : Package}
    {d : TypeDecl} (h : ∀ t ∈ d.types, t.Mentions w P) : (w.declareType p d).Refers P := by
  have hmaps : Maps (Judgement.refers P) w (fun _ => True) (fun _ => True) P fun _ _ => True :=
    { keyword := fun _ => trivial
      null := trivial
      array := fun _ _ => trivial
      union := fun _ _ => trivial
      simplify := fun _ _ => ⟨fun _ _ _ _ => trivial, fun _ _ => trivial⟩
      unsupported := fun _ _ => trivial
      mapType := fun t ht => ⟨refers_mapType hov ht.mentions, fun _ _ =>
        ⟨trivial, fun _ _ => trivial⟩, fun _ _ => trivial⟩
      structTag := fun _ _ _ => trivial }
  have hparams : ∀ q ∈ d.typeParams,
      (SourceType.typeParam q.name q.constraint).Covered w P fun _ _ => True := fun q hq =>
    ⟨h q.constraint (List.mem_append_left _ (List.mem_map_of_mem hq)), fun _ _ _ => trivial⟩
  have hunderlying : d.underlying.Covered w P fun _ _ => True :=
    ⟨h _ (List.mem_append_right _ List.mem_cons_self), fun _ _ _ => trivial⟩
  exact (hmaps.holds_declareType hparams hunderlying).1

/-- The objects that declaring an object announces. -/
def references (w : Workspace) (p : Package) (o : Object) : List ObjectName :=
  (w.declare p o).effects.filterMap fun effect =>
    match effect with
    | .reference x => some x
    | _ => none

theorem mem_references_iff {p : Package} {o : Object} {x : ObjectName} :
    x ∈ w.references p o ↔ Effect.reference x ∈ (w.declare p o).effects := by
  rw [references, List.mem_filterMap]
  constructor
  · rintro ⟨effect, heffect, hmatch⟩
    cases effect with
    | reference y => cases hmatch; exact heffect
    | require b => cases hmatch
    | report e => cases hmatch
  · exact fun h => ⟨_, h, rfl⟩

/-- A constant announces its own type or nothing. -/
theorem enumType_of_references {p : Package} {c : ConstDecl} {x : ObjectName}
    (h : x ∈ w.references p (.const c)) : c.enumType? = some x := by
  rw [mem_references_iff, declare, declareConst] at h
  split at h
  · rename_i named htype
    obtain ⟨package, name, typeArgs, underlying⟩ := named
    suffices hrefers : (w.declareMember c ⟨package, name, typeArgs, underlying⟩).Refers
        (fun x => c.enumType? = some x) from hrefers x h
    unfold declareMember
    split
    · exact Mapping.Refers.fail _
    · rename_i path hpath
      split
      · exact Mapping.Refers.pure _
      · split
        · exact Mapping.Refers.pure _
        · refine (Mapping.Refers.ofExcept _).bind fun _ =>
            Mapping.Refers.bind (fun y hy => ?_) fun _ => Mapping.Refers.pure _
          cases List.mem_singleton.mp hy
          cases hpath
          rw [ConstDecl.enumType?, htype]
  · cases h
  · cases h

/-- Whatever is announced is declared, or the type of a constant that is not. -/
theorem find?_of_references {p : Package} {o : Object} {x : ObjectName}
    (h : x ∈ w.references p o) :
    (w.find? x.package x.name).isSome = true ∨ ∃ c, o = .const c ∧ c.enumType? = some x := by
  cases o with
  | typeName d =>
      have hrefers : (w.declareType p d).Refers
          fun y => (w.find? y.package y.name).isSome = true :=
        refers_declareType (fun _ _ _ _ _ hfound => hfound) (fun _ _ _ _ hfound => hfound)
      exact Or.inl (hrefers x (mem_references_iff.mp h))
  | const c => exact Or.inr ⟨c, rfl, enumType_of_references h⟩
  | var d => cases h
  | func d => cases h

theorem mem_types_of_declares {p : Package} {o : Object} (h : w.Declares p o) {t : SourceType}
    (ht : t ∈ o.types) : t ∈ w.types :=
  List.mem_append_left _ (List.mem_flatMap.mpr ⟨p, h.1, List.mem_flatMap.mpr ⟨o, h.2, ht⟩⟩)

theorem mem_types_of_override {key : String} {t : SourceType}
    (h : w.overrides.get? key = some (.type t)) : t ∈ w.types :=
  List.mem_append_right _ (List.mem_flatMap.mpr
    ⟨.type t, Keyed.mem_values_iff.mpr ⟨key, h⟩, List.mem_cons_self⟩)

/-- Where no type names a constant, no constant is announced. -/
theorem isConstant_of_references (hconst : w.NamesNoConstant) {p : Package} {o : Object}
    (hdeclares : w.Declares p o) {x : ObjectName} (h : x ∈ w.references p o) :
    w.isConstant x = false := by
  cases o with
  | typeName d =>
      have hrefers : (w.declareType p d).Refers fun y => w.isConstant y = false :=
        refers_declareType (fun _ t ht y hy _ => hconst t (mem_types_of_override ht) y hy)
          fun t ht y hy _ => hconst t (mem_types_of_declares hdeclares ht) y hy
      exact hrefers x (mem_references_iff.mp h)
  | const c =>
      have hx := ConstDecl.mem_objects_of_enumType? (enumType_of_references h)
      exact hconst c.type (mem_types_of_declares hdeclares List.mem_cons_self) x hx
  | var d => cases h
  | func d => cases h

/-! ### Emitted declarations -/

/-- What a type declaration emits: nothing, a declaration of its own name with all its parameters,
or an alias that waits for enum members. -/
inductive TypeEmission (w : Workspace) (p : Package) (d : TypeDecl) (allowed : Identifier → Prop) :
    Emission → Prop
  | skipped (h : d.isBehavioral = true) : TypeEmission w p d allowed .nothing
  | defined {declaration : Declaration} (hbasic : d.isBasic = false)
      (hname : declaration.form.name? = some (w.identifier p.path d.name))
      (hwithin : declaration.Within allowed)
      (hparams : ∀ name ∈ d.typeParams.map TypeParamDecl.name,
        ∃ q ∈ declaration.form.typeParams, q.name = { name := name }) :
      TypeEmission w p d allowed (.define (w.identifier p.path d.name).emitted declaration)
  | filled {kind : BasicKind} {mapped : MappedType} (hbasic : d.underlying = .basic kind)
      (hmapped : mapBasic kind = .ok mapped) :
      TypeEmission w p d allowed
        (.fill (w.identifier p.path d.name).emitted (w.aliasOf p d [] mapped))

section Emitted

variable {E : List Effect} {allowed : Identifier → Prop}

/-- Parameters that are accounted for, at least one for each of the names. -/
def ParamsFor (allowed : Identifier → Prop) (names : List String) (params : List TypeParameter) :
    Prop :=
  (∀ q ∈ params, q.Within allowed) ∧ ∀ name ∈ names, ∃ q ∈ params, q.name = { name := name }

theorem ParamsFor.append {names : List String} {params more : List TypeParameter}
    (h : ParamsFor allowed names params) (hmore : ∀ q ∈ more, q.Within allowed) :
    ParamsFor allowed names (params ++ more) := by
  refine ⟨fun q hq => (List.mem_append.mp hq).elim (h.1 q) (hmore q), fun name hname => ?_⟩
  obtain ⟨q, hq, hqname⟩ := h.2 name hname
  exact ⟨q, List.mem_append_left _ hq, hqname⟩

/-- Tidying keeps a parameter of each name, since plain names are emitted as they are. -/
theorem ParamsFor.simplify {names : List String} {params simplified : List TypeParameter}
    (h : ParamsFor allowed names params) (hsimplify : TypeParameter.simplify params = .ok simplified) :
    ParamsFor allowed names simplified := by
  have hwithin := TypeParameter.within_of_simplify hsimplify h.1
  refine ⟨hwithin, fun name hname => ?_⟩
  obtain ⟨q, hq, hqname⟩ := h.2 name hname
  obtain ⟨k, hk, hemitted⟩ := TypeParameter.exists_name_of_simplify hsimplify hq
  obtain ⟨plain, hplain⟩ := (hwithin k hk).plain
  have hsame : plain = name := by
    simpa [hplain, hqname, Identifier.emitted] using hemitted
  exact ⟨k, hk, hsame ▸ hplain⟩

/-- What a type emits is accounted for if its parts are. -/
theorem EmittedBy.typeEmission {p : Package} {d : TypeDecl} {params : List TypeParameter}
    {e : Emission} (h : EmittedBy w (Expr.Within allowed) (TypeParameter.Within allowed) p d params e)
    (hparams : ParamsFor allowed (d.typeParams.map TypeParamDecl.name) params) :
    TypeEmission w p d allowed e := by
  cases h with
  | nothing hbehavioral => exact .skipped hbehavioral
  | define hbasic hname hmentioned hsimplify hexprs =>
      have hall := (hparams.append hmentioned).simplify hsimplify
      refine .defined hbasic hname (Declaration.within_of_exprs fun e he => ?_) hall.2
      rcases hexprs e he with hwithin | ⟨q, hq, he⟩
      · exact hwithin
      · exact (hall.1 q hq).exprs e he
  | fill hbasic hmapped => exact .filled hbasic hmapped

/-- What declaring a type emits is accounted for if its types are. -/
theorem yields_declareType (hallows : AllowsBuiltins E allowed)
    (hexpr : ∀ key e, w.overrides.get? key = some (.expression e) → e.Within allowed)
    (hov : ∀ key t, w.overrides.get? key = some (.type t) → t.Accounted w E allowed)
    {p : Package} {d : TypeDecl}
    (hparams : ∀ q ∈ d.typeParams, (SourceType.typeParam q.name q.constraint).Accounted w E allowed)
    (hunderlying : d.underlying.Accounted w E allowed) :
    (w.declareType p d).Yields E (TypeEmission w p d allowed) := by
  have hmaps : Maps (Judgement.yields E) w (Expr.Within allowed) (TypeParameter.Within allowed)
      (fun x => Effect.reference x ∈ E → allowed (w.identifier x.package x.name))
      fun name _ => allowed { name := name } :=
    { building_within with
      mapType := fun t ht =>
        yields_mapType hallows hexpr hov (SourceType.accounted_iff_covered.mpr ht)
      structTag := fun _ _ _ => trivial }
  have hcovered := fun q hq => SourceType.accounted_iff_covered.mp (hparams q hq)
  refine fun hsub e he => ?_
  obtain ⟨params, hresult, hwithin, hemitted⟩ := hmaps.holds_declareType hcovered
    (SourceType.accounted_iff_covered.mp hunderlying) hsub e he
  have hnames := (w.meets_declaredParams_names d.typeParams).ok params hresult
  refine hemitted.typeEmission ⟨hwithin, fun name hname => ?_⟩
  obtain ⟨q, hq, rfl⟩ := List.mem_map.mp hname
  have hmem : ({ name := q.name } : Identifier) ∈ params.map TypeParameter.name :=
    hnames ▸ List.mem_map_of_mem hq
  exact List.mem_map.mp hmem

end Emitted

/-- What a type declaration emits, whatever it refers to. -/
theorem typeEmission_of_declare {p : Package} {d : TypeDecl} {e : Emission}
    (h : (w.declare p (.typeName d)).result = .ok e) :
    TypeEmission w p d (fun _ => True) e := by
  have hall : ∀ t : SourceType,
      t.Accounted w (w.declareType p d).effects fun _ => True := fun _ =>
    ⟨fun _ _ _ _ => trivial, fun _ _ => trivial⟩
  exact yields_declareType ⟨trivial, fun _ => trivial⟩ (fun _ _ _ _ _ _ => trivial)
    (fun _ _ _ => hall _) (fun _ _ => hall _) (hall _) (List.Subset.refl _) e h

/-- What declaring a type emits, and how it fails. -/
theorem meets_declareType {F : Error → Prop} {R : String → SourceType → Prop} (hfit : Fitting V K F)
    (hmap : ∀ t : SourceType, t.Uses R → (w.mapType t).Meets (MappedType.Has V K) F)
    {p : Package} {d : TypeDecl}
    (hparams : ∀ q ∈ d.typeParams, (SourceType.typeParam q.name q.constraint).Uses R)
    (hunderlying : d.underlying.Uses R) :
    (w.declareType p d).Meets (fun e => ∃ params,
      (w.declaredParams d.typeParams).result = .ok params ∧ (∀ q ∈ params, K q) ∧
        EmittedBy w V K p d params e) F := by
  have hmaps : Maps (Judgement.meets F) w V K (fun _ => True) R :=
    { hfit.toBuilding with
      mapType := fun t ht => hmap t ht.uses
      structTag := hfit.structTag }
  exact hmaps.holds_declareType (fun q hq => ⟨fun _ _ _ => trivial, hparams q hq⟩)
    ⟨fun _ _ _ => trivial, hunderlying⟩

/-- What a constant emits: nothing if its type is left out, a member for the type that it announces,
or a constant of its own. -/
inductive ConstEmission (w : Workspace) (p : Package) (c : ConstDecl) : Emission → Prop
  | skipped (h : ∀ t, c.enumType? = some t →
      w.packages.get? t.package = none ∨ w.isIgnored t.package t.name = true) :
      ConstEmission w p c .nothing
  | member {t : ObjectName} (htype : c.enumType? = some t)
      (hincluded : (w.packages.get? t.package).isSome = true)
      (hignored : w.isIgnored t.package t.name = false) (href : t ∈ w.references p (.const c)) :
      ConstEmission w p c (.member (w.identifier t.package t.name).emitted c.member)
  | constant (htype : c.enumType? = none) :
      ConstEmission w p c (.define (w.identifier p.path c.name).emitted {
        source := p.sourceOf c.position
        comments := docComments c.doc
        form := .constant (w.identifier p.path c.name) none (.literal c.value.literal) })

theorem constEmission_of_declare {p : Package} {c : ConstDecl} {e : Emission}
    (h : (w.declare p (.const c)).result = .ok e) : ConstEmission w p c e := by
  have hreferences : ∀ t, t ∈ w.references p (.const c) ↔
      Effect.reference t ∈ (w.declareConst p c).effects := fun t => mem_references_iff
  rw [declare] at h
  unfold declareConst at h hreferences
  split at h
  · rename_i named htype
    obtain ⟨package, name, typeArgs, underlying⟩ := named
    simp only [htype] at hreferences
    unfold declareMember at h hreferences
    cases package with
    | none => cases h
    | some path =>
        have henum : c.enumType? = some ⟨path, name⟩ := by rw [ConstDecl.enumType?, htype]
        simp only at h hreferences
        cases hpackage : w.packages.get? path with
        | none =>
            rw [hpackage] at h
            cases h
            refine .skipped fun t ht => Or.inl ?_
            cases henum.symm.trans ht
            exact hpackage
        | some owner =>
            simp only [hpackage] at h hreferences
            cases hignored : w.isIgnored path name with
            | true =>
                rw [hignored, if_pos rfl] at h
                cases h
                refine .skipped fun t ht => Or.inr ?_
                cases henum.symm.trans ht
                exact hignored
            | false =>
                simp only [hignored, Bool.false_eq_true, if_false] at h hreferences
                cases hcheck : checkEnumType owner ⟨some path, name, typeArgs, underlying⟩ with
                | error e =>
                    rw [Mapping.result_bind_of_error (by rw [hcheck]; rfl)] at h
                    cases h
                | ok u =>
                    rw [hcheck] at h hreferences
                    cases h
                    refine .member henum (by rw [hpackage]; rfl) hignored ?_
                    exact (hreferences _).mpr List.mem_cons_self
  · rename_i kind htype
    cases h
    exact .constant (by rw [ConstDecl.enumType?, htype])
  · cases h

end Workspace

end TypeBridge
