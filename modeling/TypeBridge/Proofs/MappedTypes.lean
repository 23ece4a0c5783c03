import TypeBridge.Proofs.Mapping

/-!
What holds of every mapped type. Mapping builds expressions from keywords, arrays, unions and
references, makes one parameter for each occurrence of a type parameter, and passes the parameters of
the parts on to the whole. A judgement whose rules cover these steps therefore holds of the mapping of
every type, through all overrides. So a mapping refers only to declared objects that its type or an
override names; a mapped type has nothing but accounted references in it, to the map type, to a builtin
that was asked for, to a type parameter of the mapped type, or to an object that was announced; and a
property of parameters passes from those that occur to those that are collected.
-/

namespace TypeBridge

open Mapping (Judgement)

variable {w : Workspace} {overridden : String → Option (Mapping MappedType)}
  {P : ObjectName → Prop} {E : List Effect} {allowed : Identifier → Prop} {V : Expr → Prop}
  {K : TypeParameter → Prop} {F : Error → Prop} {R : String → SourceType → Prop}

/-! ### What occurs in a type -/

/-- A type whose declared objects all satisfy `P`. -/
def SourceType.Mentions (w : Workspace) (P : ObjectName → Prop) (t : SourceType) : Prop :=
  ∀ x ∈ t.objects, (w.find? x.package x.name).isSome = true → P x

theorem SourceType.Mentions.of_subset {t u : SourceType} (h : t.Mentions w P)
    (hsub : u.subtypes ⊆ t.subtypes) : u.Mentions w P :=
  fun x hx => h x (objects_subset hsub hx)

/-- Every type parameter that occurs in a type, with its constraint there, satisfies `R`. -/
def SourceType.Uses (R : String → SourceType → Prop) (t : SourceType) : Prop :=
  ∀ name constraint, SourceType.typeParam name constraint ∈ t.subtypes → R name constraint

theorem SourceType.Uses.of_subset {t u : SourceType} (h : t.Uses R)
    (hsub : u.subtypes ⊆ t.subtypes) : u.Uses R :=
  fun name constraint hmem => h name constraint (hsub hmem)

/-- The names outside every package that mapped types may always refer to are allowed: the map type,
and the builtin for comparable types if it is asked for. -/
structure AllowsBuiltins (E : List Effect) (allowed : Identifier → Prop) : Prop where
  record : allowed { name := recordName }
  comparable : Effect.require .comparable ∈ E → allowed { name := Builtin.comparable.name }

/-- The names that a type gives rise to are allowed: its type parameters, and the declared objects
that it names, as far as they are announced. -/
structure SourceType.Accounted (w : Workspace) (E : List Effect) (allowed : Identifier → Prop)
    (t : SourceType) : Prop where
  objects : ∀ x ∈ t.objects, (w.find? x.package x.name).isSome = true → Effect.reference x ∈ E →
    allowed (w.identifier x.package x.name)
  params : ∀ name ∈ t.params, allowed { name := name }

/-! ### Rules -/

/-- The mapped constraint of a type parameter. -/
def boundOf (w : Workspace) (overridden : String → Option (Mapping MappedType))
    (constraint : SourceType) : Mapping Expr :=
  match knownConstraint? constraint with
  | some known => known
  | none => do
      let mapped ← mapWith w overridden constraint
      pure mapped.value

/-- The parameter that an occurrence of a type parameter makes. -/
def TypeParameter.occurrence (name : String) (bound : Expr) : TypeParameter :=
  { name := { name := name }, constraint := some bound }

theorem mapWith_typeParam (w : Workspace) (overridden : String → Option (Mapping MappedType))
    (name : String) (constraint : SourceType) :
    mapWith w overridden (.typeParam name constraint) = (do
      let bound ← boundOf w overridden constraint
      return {
        value := .reference { name := name } []
        typeParams := [TypeParameter.occurrence name bound] }) := by
  rw [mapWith, boundOf]
  cases knownConstraint? constraint with
  | some known => rfl
  | none =>
      change _ = Mapping.bind (Mapping.bind (mapWith w overridden constraint) _) _
      change Mapping.bind (mapWith w overridden constraint) _ = _
      cases hresult : (mapWith w overridden constraint).result with
      | error e => simp only [Mapping.bind, hresult]
      | ok mapped => simp only [Mapping.bind, hresult, Bind.bind, Pure.pure, Mapping.pure,
          List.append_nil, TypeParameter.occurrence]

/-- A property of expressions, one of parameters and one of errors that fit the way in which mapping
builds types, whatever these refer to. -/
structure Building (V : Expr → Prop) (K : TypeParameter → Prop) (F : Error → Prop) : Prop where
  keyword : ∀ word, V (.keyword word)
  null : V .null
  array : ∀ elem, V elem → V (.array elem)
  union : ∀ arms, (∀ e ∈ arms, V e) → V (.union arms)
  simplify : ∀ params, (∀ p ∈ params, K p) →
    (Mapping.ofExcept (TypeParameter.simplify params)).Meets (fun kept => ∀ p ∈ kept, K p) F
  unsupported : ∀ type reason, F (.unsupportedType type reason)

/-- What a judgement about mappings has to know of the steps of mapping: how types are built, what is
asked for, and what may be referred to then. `Object` holds of the declared objects that occur, and
`Param` of the type parameters with their constraints. -/
structure Mapping.Judgement.Rules (J : Judgement) (w : Workspace)
    (overridden : String → Option (Mapping MappedType)) (V : Expr → Prop) (K : TypeParameter → Prop)
    (Object : ObjectName → Prop) (Param : String → SourceType → Prop) : Prop
    extends Building V K J.MayFail where
  override : ∀ key m, overridden key = some m → J.Holds MappedType m (MappedType.Has V K)
  report : ∀ event, J.MayAsk (.report event)
  require : ∀ b, J.MayAsk (.require b)
  refer : ∀ x, Object x → J.MayAsk (.reference x)
  record : ∀ args, (∀ e ∈ args, V e) → V (.builtin recordName args)
  comparable : J.Asked (.require .comparable) → V Builtin.comparable.reference
  object : ∀ x args, Object x → J.Asked (.reference x) → (∀ e ∈ args, V e) →
    V (.reference (w.identifier x.package x.name) args)
  param : ∀ name constraint, Param name constraint → V (.reference { name := name } [])
  occurrence : ∀ name constraint bound, Param name constraint → V bound →
    (boundOf w overridden constraint).result = .ok bound → K (.occurrence name bound)

/-- The objects and the parameters that occur in a type are as the rules want them. -/
structure SourceType.Covered (w : Workspace) (Object : ObjectName → Prop)
    (Param : String → SourceType → Prop) (t : SourceType) : Prop where
  mentions : t.Mentions w Object
  uses : t.Uses Param

theorem SourceType.Covered.of_subset {Object : ObjectName → Prop} {Param : String → SourceType → Prop}
    {t u : SourceType} (h : t.Covered w Object Param) (hsub : u.subtypes ⊆ t.subtypes) :
    u.Covered w Object Param :=
  ⟨h.mentions.of_subset hsub, h.uses.of_subset hsub⟩

theorem SourceType.accounted_iff_covered {t : SourceType} :
    t.Accounted w E allowed ↔ t.Covered w
      (fun x => Effect.reference x ∈ E → allowed (w.identifier x.package x.name))
      fun name _ => allowed { name := name } := by
  constructor
  · exact fun h => ⟨h.objects, fun name _ hmem => h.params name (mem_params_iff.mpr ⟨_, hmem⟩)⟩
  · refine fun h => ⟨h.mentions, fun name hname => ?_⟩
    obtain ⟨constraint, hmem⟩ := mem_params_iff.mp hname
    exact h.uses name constraint hmem

namespace Building

variable (h : Building V K F)

include h

theorem has_unknown (comment : String) : (MappedType.unknown comment).Has V K :=
  (MappedType.has_plain (h.keyword _)).addComment comment

theorem has_bytes : (MappedType.plain (.array (.keyword .string))).Has V K :=
  MappedType.has_plain (h.array _ (h.keyword _))

theorem nullable {inner : Expr} (hinner : V inner) : V inner.nullable := by
  refine h.union _ fun e he => ?_
  rcases List.mem_cons.mp he with rfl | he
  · exact hinner
  · rw [List.mem_singleton.mp he]
    exact h.null

theorem meets_mapBasic (kind : BasicKind) :
    (Mapping.ofExcept (mapBasic kind)).Meets (MappedType.Has V K) F := by
  unfold mapBasic
  split
  · exact Mapping.Meets.pure (MappedType.has_plain (h.keyword _))
  · split
    · exact Mapping.Meets.pure (MappedType.has_plain (h.keyword _))
    · split
      · exact Mapping.Meets.pure (MappedType.has_plain (h.keyword _))
      · split
        · exact Mapping.Meets.pure ((MappedType.has_plain (h.keyword _)).addComment _)
        · exact Mapping.Meets.fail (h.unsupported _ _)

end Building

/-! ### The steps of mapping -/

namespace Mapping.Judgement.Rules

variable {J : Judgement} {Object : ObjectName → Prop} {Param : String → SourceType → Prop}

theorem holds_knownConstraint (h : J.Rules w overridden V K Object Param) {t : SourceType}
    {known : Mapping Expr} (hknown : knownConstraint? t = some known) : J.Holds Expr known V := by
  unfold knownConstraint? at hknown
  split at hknown <;> cases hknown
  · exact J.bind (J.ask (h.require _)) fun _ hasked _ => J.pure (h.comparable hasked)
  · exact J.pure (h.keyword _)
  · exact J.pure (h.keyword _)
  · exact J.fail (h.unsupported _ _)

theorem holds_announce (h : J.Rules w overridden V K Object Param) (p : Package) {x : ObjectName}
    (hx : Object x) : J.Holds Unit (announce p x) fun _ => J.Asked (.reference x) := by
  refine J.bind (J.ask (h.refer x hx)) fun _ hasked _ => ?_
  split
  · exact J.mono (J.ask (h.report _)) fun _ _ => hasked
  · exact J.pure hasked

theorem has_occurrence (h : J.Rules w overridden V K Object Param) {name : String}
    {constraint : SourceType} {bound : Expr} (hname : Param name constraint) (hbound : V bound)
    (hresult : (boundOf w overridden constraint).result = .ok bound) :
    ({ value := .reference { name := name } []
       typeParams := [TypeParameter.occurrence name bound] } : MappedType).Has V K :=
  ⟨h.param name constraint hname,
    List.forall_mem_singleton.mpr (h.occurrence name constraint bound hname hbound hresult)⟩

mutual

/-- A judgement whose rules cover what occurs in a type holds of its mapping. -/
theorem holds_mapWith (h : J.Rules w overridden V K Object Param) : ∀ t : SourceType,
    t.Covered w Object Param → J.Holds MappedType (mapWith w overridden t) (MappedType.Has V K)
  | .basic kind, _ => by
      rw [mapWith]
      exact J.ofExcept (h.meets_mapBasic kind)
  | .struct fields, _ => by
      rw [mapWith]
      exact J.pure (h.has_unknown _)
  | .map key value, ht => by
      rw [mapWith]
      have hkey := h.holds_mapWith key (ht.of_subset (SourceType.subtypes_map_key key value))
      have hvalue := h.holds_mapWith value (ht.of_subset (SourceType.subtypes_map_value key value))
      refine J.bind hkey fun key hkey _ => J.bind hvalue fun value hvalue _ => ?_
      have hmapped : (MappedType.combine [key, value] (.builtin recordName)).Has V K := by
        refine MappedType.has_combine (fun t ht => ?_) (h.record _)
        rcases List.mem_cons.mp ht with rfl | ht
        · exact hkey
        · cases List.mem_singleton.mp ht
          exact hvalue
      exact J.bind (J.ofExcept (h.simplify _ hmapped.typeParams)) fun params hparams _ =>
        J.pure ⟨hmapped.value, hparams⟩
  | .slice elem, ht => by
      rw [mapWith]
      have helem := h.holds_mapWith elem (ht.of_subset (List.subset_cons_self _ _))
      split
      · exact J.pure h.has_bytes
      · exact J.bind helem fun mapped hmapped _ =>
          J.pure (hmapped.mapValue (h.array _ hmapped.value))
  | .array length elem, ht => by
      rw [mapWith]
      have helem := h.holds_mapWith elem (ht.of_subset (List.subset_cons_self _ _))
      split
      · exact J.pure h.has_bytes
      · exact J.bind helem fun mapped hmapped _ =>
          J.pure (hmapped.mapValue (h.array _ hmapped.value))
  | .named ⟨none, name, typeArgs, underlying⟩, ht => by
      rw [mapWith]
      have hforeign := h.holds_mapForeign (qualifiedName none name) underlying fun t hmem =>
        ht.of_subset (SourceType.subtypes_underlying none name typeArgs hmem)
      split
      · rename_i mapped hmapped
        exact h.override _ mapped hmapped
      · split
        · exact J.pure (MappedType.has_plain (h.keyword _))
        · split
          · exact J.bind (J.ask (h.require _)) fun _ hasked _ =>
              J.pure (MappedType.has_plain (h.comparable hasked))
          · exact hforeign
  | .named ⟨some path, name, typeArgs, underlying⟩, ht => by
      rw [mapWith]
      have hforeign := h.holds_mapForeign (qualifiedName (some path) name) underlying fun t hmem =>
        ht.of_subset (SourceType.subtypes_underlying (some path) name typeArgs hmem)
      have hargs := h.holds_mapList typeArgs fun t hmem =>
        ht.of_subset (SourceType.subtypes_typeArg (some path) name underlying hmem)
      split
      · rename_i mapped hmapped
        exact h.override _ mapped hmapped
      · split
        · exact hforeign
        · rename_i owner object hfind
          have hfound : Object ⟨path, name⟩ :=
            ht.mentions ⟨path, name⟩ (SourceType.mem_objects_named path name typeArgs underlying)
              (by rw [hfind]; rfl)
          exact J.bind (h.holds_announce owner hfound) fun _ hasked _ =>
            J.bind hargs fun args hargs _ => J.pure
              (MappedType.has_combine hargs (h.object ⟨path, name⟩ _ hfound hasked))
  | .pointer elem, ht => by
      rw [mapWith]
      have helem := h.holds_mapWith elem (ht.of_subset (List.subset_cons_self _ _))
      exact J.bind helem fun mapped hmapped _ =>
        J.pure (hmapped.mapValue (h.nullable hmapped.value))
  | .interface [] [], _ => by
      rw [mapWith]
      exact J.pure (h.has_unknown _)
  | .interface [] (method :: methods), _ => by
      rw [mapWith] <;> try simp
      exact J.pure (h.has_unknown _)
  | .interface [embedded] methods, ht => by
      rw [mapWith]
      exact h.holds_mapWith embedded (ht.of_subset (SourceType.subtypes_embedded embedded methods))
  | .interface (first :: second :: rest) methods, _ => by
      rw [mapWith] <;> try simp
      exact J.pure (h.has_unknown _)
  | .union terms, ht => by
      rw [mapWith]
      have hterms := h.holds_mapTerms terms fun t hmem =>
        ht.of_subset (SourceType.subtypes_term hmem)
      exact J.bind hterms fun mapped hmapped _ =>
        J.pure (MappedType.has_combine hmapped (h.union _))
  | .typeParam name constraint, ht => by
      rw [mapWith_typeParam]
      have hconstraint := h.holds_mapWith constraint (ht.of_subset (List.subset_cons_self _ _))
      have hbound : J.Holds Expr (boundOf w overridden constraint) V := by
        unfold boundOf
        split
        · rename_i known hknown
          exact h.holds_knownConstraint hknown
        · exact J.bind hconstraint fun mapped hmapped _ => J.pure hmapped.value
      have hname := ht.uses name constraint (SourceType.mem_subtypes_self _)
      exact J.bind hbound fun bound hbound hresult =>
        J.pure (h.has_occurrence hname hbound hresult)
  | .signature, _ => by
      rw [mapWith]
      exact J.fail (h.unsupported _ _)
  | .chan elem, _ => by
      rw [mapWith]
      exact J.fail (h.unsupported _ _)

theorem holds_mapList (h : J.Rules w overridden V K Object Param) : ∀ ts : List SourceType,
    (∀ t ∈ ts, t.Covered w Object Param) →
      J.Holds (List MappedType) (mapList w overridden ts) fun parts => ∀ t ∈ parts, t.Has V K
  | [], _ => by
      rw [mapList]
      exact J.pure (List.forall_mem_nil _)
  | t :: rest, hts => by
      rw [mapList]
      have ht := h.holds_mapWith t (hts t List.mem_cons_self)
      have hrest := h.holds_mapList rest fun u hu => hts u (List.mem_cons_of_mem _ hu)
      exact J.bind ht fun mapped hmapped _ => J.bind hrest fun parts hparts _ =>
        J.pure (List.forall_mem_cons.mpr ⟨hmapped, hparts⟩)

theorem holds_mapTerms (h : J.Rules w overridden V K Object Param) :
    ∀ terms : List (TermOf SourceType), (∀ term ∈ terms, term.type.Covered w Object Param) →
      J.Holds (List MappedType) (mapTerms w overridden terms) fun parts => ∀ t ∈ parts, t.Has V K
  | [], _ => by
      rw [mapTerms]
      exact J.pure (List.forall_mem_nil _)
  | ⟨tilde, t⟩ :: rest, hterms => by
      rw [mapTerms]
      have ht := h.holds_mapWith t (hterms ⟨tilde, t⟩ List.mem_cons_self)
      have hrest := h.holds_mapTerms rest fun term hterm =>
        hterms term (List.mem_cons_of_mem _ hterm)
      exact J.bind ht fun mapped hmapped _ => J.bind hrest fun parts hparts _ =>
        J.pure (List.forall_mem_cons.mpr ⟨hmapped, hparts⟩)

theorem holds_mapForeign (h : J.Rules w overridden V K Object Param) (qualified : String) :
    ∀ t : Option SourceType, (∀ u, t = some u → u.Covered w Object Param) →
      J.Holds MappedType (mapForeign w overridden qualified t) (MappedType.Has V K)
  | none, _ => by
      rw [mapForeign]
      exact J.fail (h.unsupported _ _)
  | some t, ht => by
      have hmapped := h.holds_mapWith t (ht t rfl)
      unfold mapForeign
      split
      · exact J.fail (h.unsupported _ _)
      · exact J.pure (h.has_unknown _)
      · rename_i heq
        cases heq
        exact J.bind hmapped fun mapped hmapped _ => J.pure (hmapped.addComment _)

end

end Mapping.Judgement.Rules

/-! ### Objects, references and parameters of a mapped type -/

theorem refers_mapWith (hov : ∀ key m, overridden key = some m → m.Refers P) (t : SourceType)
    (ht : t.Mentions w P) : (mapWith w overridden t).Refers P := by
  have hrules : (Judgement.refers P).Rules w overridden (fun _ => True) (fun _ => True) P
      fun _ _ => True :=
    { keyword := fun _ => trivial
      null := trivial
      array := fun _ _ => trivial
      union := fun _ _ => trivial
      simplify := fun _ _ => ⟨fun _ _ _ _ => trivial, fun _ _ => trivial⟩
      unsupported := fun _ _ => trivial
      override := fun key m hm =>
        ⟨hov key m hm, fun _ _ => ⟨trivial, fun _ _ => trivial⟩, fun _ _ => trivial⟩
      report := fun _ _ h => nomatch h
      require := fun _ _ h => nomatch h
      refer := fun x hx y hy => by cases hy; exact hx
      record := fun _ _ => trivial
      comparable := fun _ => trivial
      object := fun _ _ _ _ _ => trivial
      param := fun _ _ _ => trivial
      occurrence := fun _ _ _ _ _ _ => trivial }
  exact (hrules.holds_mapWith t ⟨ht, fun _ _ _ => trivial⟩).1

theorem building_within : Building (Expr.Within allowed) (TypeParameter.Within allowed)
    fun _ => True where
  keyword := Expr.within_keyword
  null := Expr.within_null
  array _ := Expr.within_array
  union _ := Expr.within_union_iff.mpr
  simplify _ h := ⟨fun _ hkept => TypeParameter.within_of_simplify hkept h, fun _ _ => trivial⟩
  unsupported _ _ := trivial

theorem within_of_mapBasic {kind : BasicKind} {mapped : MappedType}
    (h : mapBasic kind = .ok mapped) : mapped.Within allowed :=
  (building_within.meets_mapBasic kind).ok mapped h

/-- The parameter that an occurrence makes refers to nothing but its bound. -/
theorem TypeParameter.within_occurrence (name : String) {bound : Expr} (hbound : bound.Within allowed) :
    (TypeParameter.occurrence name bound).Within allowed :=
  ⟨⟨name, rfl⟩, List.forall_mem_singleton.mpr hbound⟩

theorem yields_mapWith (hallows : AllowsBuiltins E allowed)
    (hov : ∀ key m, overridden key = some m → m.Yields E (MappedType.Within allowed)) (t : SourceType)
    (ht : t.Accounted w E allowed) :
    (mapWith w overridden t).Yields E (MappedType.Within allowed) := by
  have hrules : (Judgement.yields E).Rules w overridden (Expr.Within allowed)
      (TypeParameter.Within allowed)
      (fun x => Effect.reference x ∈ E → allowed (w.identifier x.package x.name))
      fun name _ => allowed { name := name } :=
    { building_within with
      override := hov
      report := fun _ => trivial
      require := fun _ => trivial
      refer := fun _ _ => trivial
      record := fun _ => Expr.within_reference hallows.record
      comparable := fun hasked =>
        Expr.within_reference (hallows.comparable hasked) (List.forall_mem_nil _)
      object := fun _ _ hobject hasked => Expr.within_reference (hobject hasked)
      param := fun _ _ hname => Expr.within_reference hname (List.forall_mem_nil _)
      occurrence := fun name _ _ _ hbound _ => TypeParameter.within_occurrence name hbound }
  exact hrules.holds_mapWith t (SourceType.accounted_iff_covered.mp ht)

/-- A property of expressions, one of parameters and one of errors that fit the way in which mapping
builds types, with references of any name, and the tags of fields. -/
structure Fitting (V : Expr → Prop) (K : TypeParameter → Prop) (F : Error → Prop) : Prop
    extends Building V K F where
  reference : ∀ name args, (∀ e ∈ args, V e) → V (.reference name args)
  structTag : ∀ owner field cause, F (.structTag owner field cause)

theorem meets_mapWith (hfit : Fitting V K F)
    (hov : ∀ key m, overridden key = some m → m.Meets (MappedType.Has V K) F)
    (hparam : ∀ name constraint bound, R name constraint → V bound →
      (boundOf w overridden constraint).result = .ok bound → K (.occurrence name bound))
    (t : SourceType) (ht : t.Uses R) : (mapWith w overridden t).Meets (MappedType.Has V K) F := by
  have hrules : (Judgement.meets F).Rules w overridden V K (fun _ => True) R :=
    { hfit.toBuilding with
      override := hov
      report := fun _ => trivial
      require := fun _ => trivial
      refer := fun _ _ => trivial
      record := fun _ => hfit.reference _ _
      comparable := fun _ => hfit.reference _ _ (List.forall_mem_nil _)
      object := fun _ _ _ _ => hfit.reference _ _
      param := fun _ _ _ => hfit.reference _ _ (List.forall_mem_nil _)
      occurrence := hparam }
  exact hrules.holds_mapWith t ⟨fun _ _ _ => trivial, ht⟩

/-! ### Overrides in force -/

/-- What the overrides in force say about a qualified name. -/
def overrideIn (w : Workspace) (inForce : Keyed TypeOverride) (key : String) :
    Option (Mapping MappedType) :=
  match inForce.get? key with
  | none => none
  | some (.expression e) => some (pure (.plain e))
  | some (.type other) => some (mapType w (inForce.erase key) other)

theorem mapType_eq_mapWith (w : Workspace) (inForce : Keyed TypeOverride) (t : SourceType) :
    mapType w inForce t = mapWith w (overrideIn w inForce) t := by
  rw [mapType]
  congr 1
  funext key
  unfold overrideIn
  split <;> simp_all

/-- A property of mapped types that an override hands on holds of every mapping, whatever overrides
are in force: it is enough to look at one type with the overrides taken for granted. The induction
is on the number of overrides in force, since one that stands for a type is not in force in it. -/
theorem mapType_induction {w : Workspace} {C : Mapping MappedType → Prop} {Q : SourceType → Prop}
    {overrides : Keyed TypeOverride}
    (hexpr : ∀ key e, overrides.get? key = some (.expression e) → C (pure (.plain e)))
    (htype : ∀ key t, overrides.get? key = some (.type t) → Q t)
    (hmap : ∀ overridden : String → Option (Mapping MappedType),
      (∀ key m, overridden key = some m → C m) → ∀ t, Q t → C (mapWith w overridden t))
    {t : SourceType} (ht : Q t) : C (mapType w overrides t) := by
  induction hsize : overrides.size using Nat.strongRecOn generalizing overrides t with
  | _ size ih =>
      rw [mapType_eq_mapWith]
      refine hmap _ (fun key m hm => ?_) t ht
      unfold overrideIn at hm
      split at hm
      · cases hm
      · rename_i e hget
        cases hm
        exact hexpr key e hget
      · rename_i other hget
        cases hm
        exact ih _ (hsize ▸ overrides.length_erase_lt hget)
          (fun key e h => hexpr key e (Keyed.get?_of_get?_erase h))
          (fun key t h => htype key t (Keyed.get?_of_get?_erase h)) (htype key other hget) rfl

theorem Workspace.refers_mapType {w : Workspace} {P : ObjectName → Prop}
    (hov : ∀ key t, w.overrides.get? key = some (.type t) → t.Mentions w P) {t : SourceType}
    (ht : t.Mentions w P) : (w.mapType t).Refers P :=
  mapType_induction (fun _ _ _ => Mapping.Refers.pure _) hov
    (fun _ hoverridden => refers_mapWith hoverridden) ht

theorem Workspace.yields_mapType {w : Workspace} {E : List Effect} {allowed : Identifier → Prop}
    (hallows : AllowsBuiltins E allowed)
    (hexpr : ∀ key e, w.overrides.get? key = some (.expression e) → e.Within allowed)
    (hov : ∀ key t, w.overrides.get? key = some (.type t) → t.Accounted w E allowed)
    {t : SourceType} (ht : t.Accounted w E allowed) :
    (w.mapType t).Yields E (MappedType.Within allowed) :=
  mapType_induction
    (fun key e hget => Mapping.Yields.pure (MappedType.has_plain (hexpr key e hget))) hov
    (fun _ hoverridden => yields_mapWith hallows hoverridden) ht

/-- Mapping with all overrides in force, for a property of parameters that does not depend on the
overrides. -/
theorem Workspace.meets_mapType {w : Workspace} (hfit : Fitting V K F)
    (hexpr : ∀ key e, w.overrides.get? key = some (.expression e) → V e)
    (hov : ∀ key t, w.overrides.get? key = some (.type t) → t.Uses R)
    (hparam : ∀ name constraint bound, R name constraint → K (.occurrence name bound))
    {t : SourceType} (ht : t.Uses R) : (w.mapType t).Meets (MappedType.Has V K) F :=
  mapType_induction
    (fun key e hget => Mapping.Meets.pure (MappedType.has_plain (hexpr key e hget))) hov
    (fun _ hoverridden => meets_mapWith hfit hoverridden
      fun name constraint bound hname _ _ => hparam name constraint bound hname) ht

end TypeBridge
