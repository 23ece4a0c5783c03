import TypeBridge.Proofs.Declare
import TypeBridge.Proofs.Reachable
import TypeBridge.Proofs.Simplifying

/-!
The type parameters of generated declarations. A type that uses its own parameters only, each with
the constraint that it declares, is declared with exactly these parameters in their order, and never
collides with itself. Aliases of basic types are the exception: they lose their parameters, and so
does a declaration that becomes an enum.
-/

namespace TypeBridge

/-- The type parameters that occur in a type, each with its constraint there. -/
def SourceType.typeParams (t : SourceType) : List TypeParamDecl :=
  t.subtypes.filterMap fun u =>
    match u with
    | .typeParam name constraint => some ⟨name, constraint⟩
    | _ => none

/-- The parameters of a declaration have distinct names, and every type parameter that occurs in it
is one of them, with its constraint. -/
structure TypeDecl.Coherent (d : TypeDecl) : Prop where
  nodup : (d.typeParams.map TypeParamDecl.name).Nodup
  own : ∀ t ∈ d.types, t.typeParams ⊆ d.typeParams

theorem TypeDecl.Coherent.uses {d : TypeDecl} (h : d.Coherent) {t : SourceType} (ht : t ∈ d.types) :
    t.Uses fun name constraint => ⟨name, constraint⟩ ∈ d.typeParams :=
  fun _ _ hmem => h.own t ht (List.mem_filterMap.mpr ⟨_, hmem, rfl⟩)

/-- An error other than a collision of type parameters. -/
def Error.NoCollision (e : Error) : Prop := ∀ name, e ≠ .typeParameterCollision name

namespace Workspace

variable {w : Workspace} {d : TypeDecl}

/-! ### Parameters that agree -/

/-- A parameter made from one of the declared ones: of its name, and with its mapped constraint as
far as tidying can tell. -/
def StandsFor (w : Workspace) (d : TypeDecl) (p : TypeParameter) : Prop :=
  ∃ q ∈ d.typeParams, ∃ bound, Expr.same bound bound = true ∧
    (boundOf w (overrideIn w w.overrides) q.constraint).result = .ok bound ∧
    p.name = { name := q.name } ∧ p.tidy.constraint = some bound.withDistinctArms

theorem StandsFor.tidy {p : TypeParameter} (h : w.StandsFor d p) : w.StandsFor d p.tidy := by
  obtain ⟨q, hq, bound, hsame, hbound, hname, hconstraint⟩ := h
  exact ⟨q, hq, bound, hsame, hbound, hname, by rw [TypeParameter.tidy_idem, hconstraint]⟩

theorem StandsFor.agrees (hnodup : (d.typeParams.map TypeParamDecl.name).Nodup)
    {p p' : TypeParameter} (h : w.StandsFor d p) (h' : w.StandsFor d p') : p.Agrees p' := by
  obtain ⟨q, hq, bound, hsame, hbound, hname, hconstraint⟩ := h
  obtain ⟨q', hq', bound', -, hbound', hname', hconstraint'⟩ := h'
  intro hkey
  have hdeclared : q = q' := by
    refine List.inj_on_of_nodup_map hnodup hq hq' ?_
    simpa [TypeParameter.key, hname, hname', Identifier.emitted] using hkey
  subst hdeclared
  rw [hbound, Except.ok.injEq] at hbound'
  subst hbound'
  rw [hconstraint, hconstraint']
  exact Expr.same_withDistinctArms_self hsame

theorem fitting_standsFor (w : Workspace) (hnodup : (d.typeParams.map TypeParamDecl.name).Nodup) :
    Fitting (fun e => Expr.same e e = true) (w.StandsFor d) Error.NoCollision where
  keyword := Expr.same_keyword_self
  null := by rw [Expr.same]
  array _ h := Expr.same_array_self h
  union _ h := Expr.same_union_self_iff.mpr h
  reference name _ h := Expr.same_reference_self name h
  simplify params h := by
    refine ⟨fun kept hkept q hq => ?_, fun e he => ?_⟩
    · obtain ⟨p, hp, rfl⟩ := TypeParameter.exists_tidy_of_simplify hkept hq
      exact (h p hp).tidy
    · have hagree : params.Pairwise TypeParameter.Agrees :=
        List.pairwise_of_forall_mem_list fun p hp q hq => (h p hp).agrees hnodup (h q hq)
      obtain ⟨kept, hkept⟩ := TypeParameter.exists_simplify_iff.mpr hagree
      cases hkept.symm.trans he
  unsupported _ _ _ h := nomatch h
  structTag _ _ _ _ h := nomatch h

/-- With the default overrides, mapping a type with declared parameters mentions only such. -/
theorem meets_mapType_of_uses (hdefaults : w.overrides = TypeOverride.defaults)
    (hnodup : (d.typeParams.map TypeParamDecl.name).Nodup) {t : SourceType}
    (ht : t.Uses fun name constraint => ⟨name, constraint⟩ ∈ d.typeParams) :
    (w.mapType t).Meets (MappedType.Has (fun e => Expr.same e e = true) (w.StandsFor d))
      Error.NoCollision := by
  rw [mapType, mapType_eq_mapWith]
  refine meets_mapWith (w.fitting_standsFor hnodup) (fun key m hm => ?_) ?_ t ht
  · unfold overrideIn at hm
    split at hm
    · cases hm
    · rename_i e hget
      rw [hdefaults] at hget
      cases (TypeOverride.eq_of_get?_defaults hget).2
      cases hm
      exact Mapping.Meets.pure (MappedType.has_plain (Expr.same_keyword_self _))
    · rename_i other hget
      rw [hdefaults] at hget
      cases (TypeOverride.eq_of_get?_defaults hget).2
  · intro name constraint bound hdeclared hsame hbound
    exact ⟨⟨name, constraint⟩, hdeclared, bound, hsame, hbound, rfl, rfl⟩

/-! ### The parameters of a declared type -/

/-- What a coherent type emits, and that it never collides. -/
theorem meets_declareType_of_coherent (hdefaults : w.overrides = TypeOverride.defaults)
    (hcoherent : d.Coherent) (p : Package) :
    (w.declareType p d).Meets (fun e => ∃ params,
      (w.declaredParams d.typeParams).result = .ok params ∧ (∀ q ∈ params, w.StandsFor d q) ∧
        EmittedBy w (fun e => Expr.same e e = true) (w.StandsFor d) p d params e) Error.NoCollision := by
  refine meets_declareType (w.fitting_standsFor hcoherent.nodup)
    (fun t ht => meets_mapType_of_uses hdefaults hcoherent.nodup ht) (fun q hq => ?_)
    (hcoherent.uses (List.mem_append_right _ List.mem_cons_self))
  have hconstraint := hcoherent.uses (t := q.constraint)
    (List.mem_append_left _ (List.mem_map_of_mem hq))
  intro name constraint hmem
  rcases List.mem_cons.mp hmem with heq | hmem
  · cases heq
    exact hq
  · exact hconstraint name constraint hmem

/-- The declaration that a coherent type emits has the declared parameters, unless the type is
basic. -/
theorem names_typeParams_of_declareType (hdefaults : w.overrides = TypeOverride.defaults)
    (hcoherent : d.Coherent) {p : Package} {e : Emission}
    (he : (w.declareType p d).result = .ok e) {key : String} {node : Declaration}
    (hnode : e.declaration? key = some node) :
    node.form.typeParams.map TypeParameter.name =
      if d.isBasic then [] else d.typeParams.map fun q => { name := q.name } := by
  obtain ⟨params, hparams, hstands, hemission⟩ :=
    (meets_declareType_of_coherent hdefaults hcoherent p).ok e he
  have hnames := (w.meets_declaredParams_names d.typeParams).ok params hparams
  have hkeys : params.map TypeParameter.key = d.typeParams.map TypeParamDecl.name := by
    have hplain : ∀ q : TypeParamDecl, ({ name := q.name } : Identifier).emitted = q.name :=
      fun q => String.empty_append
    calc params.map TypeParameter.key
        = (params.map TypeParameter.name).map Identifier.emitted := List.map_map.symm
      _ = d.typeParams.map TypeParamDecl.name := by
        rw [hnames, List.map_map]
        exact List.map_congr_left fun q _ => hplain q
  cases hemission with
  | nothing => cases hnode
  | @define _ mentioned hbasic _ hmentioned hsimplify =>
      obtain ⟨-, rfl⟩ := Emission.declaration?_define_eq_some.mp hnode
      -- every mentioned parameter is a declared one once more
      have hknown : ∀ q ∈ mentioned, ∃ p ∈ params, p.key = q.key := by
        intro q hq
        obtain ⟨declared, hdeclared, -, -, -, hname, -⟩ := hmentioned q hq
        have hkey : q.key ∈ params.map TypeParameter.key := by
          rw [hkeys]
          refine List.mem_map.mpr ⟨declared, hdeclared, ?_⟩
          simp [TypeParameter.key, hname, Identifier.emitted]
        exact List.mem_map.mp hkey
      rw [TypeParameter.simplify_append_eq (hkeys ▸ hcoherent.nodup) hknown hsimplify,
        List.map_map, ← hnames, hbasic, if_neg Bool.false_ne_true]
      exact List.map_congr_left fun _ _ => rfl
  | fill hbasic =>
      obtain ⟨-, rfl⟩ := Emission.declaration?_fill_eq_some.mp hnode
      rw [TypeDecl.isBasic, hbasic]
      rfl

/-! ### Instantiations -/

theorem meets_mapList_length (w : Workspace) (overridden : String → Option (Mapping MappedType))
    (ts : List SourceType) :
    (mapList w overridden ts).Meets (fun parts => parts.length = ts.length) fun _ => True := by
  induction ts with
  | nil =>
      rw [mapList]
      exact Mapping.Meets.pure rfl
  | cons t rest ih =>
      rw [mapList]
      refine (Mapping.Meets.any _).bind fun mapped _ => ih.bind fun parts hparts =>
        Mapping.Meets.pure ?_
      rw [List.length_cons, List.length_cons, hparts]

/-- A qualified name of a package is not the one that is overridden by default. -/
theorem qualifiedName_ne_error (path name : String) : qualifiedName (some path) name ≠ "error" := by
  intro h
  have hdot : '.' ∈ (qualifiedName (some path) name).toList := by
    simp [qualifiedName, String.toList_append]
  rw [h] at hdot
  exact absurd hdot (by decide)

/-- An instantiation of a declared type refers to it with as many arguments. -/
theorem meets_mapType_instantiation (hdefaults : w.overrides = TypeOverride.defaults)
    {path name : String} (hfound : (w.find? path name).isSome = true)
    (typeArgs : List SourceType) (underlying : Option SourceType) :
    (w.mapType (.named ⟨some path, name, typeArgs, underlying⟩)).Meets (fun mapped => ∃ args,
      mapped.value = .reference (w.identifier path name) args ∧ args.length = typeArgs.length)
      fun _ => True := by
  obtain ⟨⟨owner, o⟩, hfind⟩ := Option.isSome_iff_exists.mp hfound
  have hnone : overrideIn w w.overrides (qualifiedName (some path) name) = none := by
    cases hget : w.overrides.get? (qualifiedName (some path) name) with
    | none => simp only [overrideIn, hget]
    | some o =>
        rw [hdefaults] at hget
        exact absurd (TypeOverride.eq_of_get?_defaults hget).1 (qualifiedName_ne_error path name)
  rw [mapType, mapType_eq_mapWith, mapWith]
  simp only [hnone, hfind]
  refine (Mapping.Meets.any _).bind fun _ _ => (meets_mapList_length _ _ typeArgs).bind
    fun args hargs => Mapping.Meets.pure ⟨args.map MappedType.value, rfl, ?_⟩
  rw [List.length_map, hargs]

/-! ### Finished graphs -/

/-- The declaration of a type in the graph is what the type emitted, with members attached. -/
theorem exists_emitted {g : Graph} (h : w.convert.1 = .ok g) {p : Package}
    (hdeclared : (p, .typeName d) ∈ w.build.state.declared) {key : String} {node : Declaration}
    (hnode : g.get? key = some node)
    (hname : node.form.name? = some (w.identifier p.path d.name)) :
    ∃ e emitted members, (w.declareType p d).result = .ok e ∧
      e.declaration? key = some emitted ∧ node = emitted.withMembers members := by
  obtain ⟨s, hs⟩ := exists_finished h
  rw [hs.declared] at hdeclared
  rcases hs.exists_origin hnode with ⟨owner, howner, emitted, hemitted, rfl⟩ | ⟨b, -, rfl⟩
  · obtain ⟨-, hown⟩ := name_of_declaration? hemitted
    rw [name?_withMembers, hown] at hname
    -- no name is declared twice
    have hsame : owner = (p, .typeName d) := by
      refine List.inj_on_of_nodup_map hs.late.sound.nodup howner hdeclared ?_
      obtain ⟨hpath, hobject⟩ := identifier_injective (Option.some.inj hname)
      exact congrArg₂ ObjectName.mk hpath hobject
    subst hsame
    obtain ⟨e, he⟩ := hs.late.sound.maps _ howner
    rw [emission_of_ok he] at hemitted
    exact ⟨e, emitted, _, he, hemitted, rfl⟩
  · have hpackage := congrArg Identifier.package (Option.some.inj hname)
    cases hpackage

/-- A coherent type never collides with itself, and its declaration has exactly the declared
parameters, so that instantiations fit it, unless the type is basic or has become an enum: then it
has none. -/
theorem typeParams_kept (hdefaults : w.overrides = TypeOverride.defaults) (p : Package)
    (hcoherent : d.Coherent) :
    (∀ name, (w.declareType p d).result ≠ .error (.typeParameterCollision name)) ∧
    ∀ g key node, w.convert.1 = .ok g → (p, .typeName d) ∈ w.build.state.declared →
      g.get? key = some node → node.form.name? = some (w.identifier p.path d.name) →
      (d.isBasic = true ∨ node.form.isEnum = true → node.form.typeParams = []) ∧
      (d.isBasic = false → node.form.isEnum = false →
        node.form.typeParams.map TypeParameter.name =
          d.typeParams.map (fun q => { name := q.name }) ∧
        ∀ typeArgs underlying mapped, typeArgs.length = d.typeParams.length →
          (w.mapType (.named ⟨some p.path, d.name, typeArgs, underlying⟩)).result = .ok mapped →
          ∃ args, mapped.value = .reference (w.identifier p.path d.name) args ∧
            args.length = node.form.typeParams.length) := by
  refine ⟨fun name h => (meets_declareType_of_coherent hdefaults hcoherent p).error _ h name rfl,
    fun g key node h hdeclared hnode hname => ?_⟩
  obtain ⟨e, emitted, members, he, hemitted, rfl⟩ := exists_emitted h hdeclared hnode hname
  have hparams := names_typeParams_of_declareType hdefaults hcoherent he hemitted
  refine ⟨fun hlost => ?_, fun hbasic henum => ?_⟩
  · rcases hlost with hbasic | henum
    · rw [hbasic, if_pos rfl, List.map_eq_nil_iff] at hparams
      refine List.eq_nil_iff_forall_not_mem.mpr fun q hq => ?_
      have hsame := withMembers_eq_of_typeParams hq
      rw [hsame, hparams] at hq
      cases hq
    · exact Form.typeParams_of_isEnum henum
  · have hsame := (withMembers_eq_or_isEnum emitted members).resolve_right
      (Bool.eq_false_iff.mp henum)
    rw [hbasic, if_neg Bool.false_ne_true] at hparams
    rw [hsame]
    refine ⟨hparams, fun typeArgs underlying mapped hlength hmapped => ?_⟩
    obtain ⟨s, hs⟩ := exists_finished h
    rw [hs.declared] at hdeclared
    have hfound := isSome_find? (hs.late.sound.converted _ hdeclared).declares
    obtain ⟨args, hvalue, hargs⟩ :=
      (meets_mapType_instantiation hdefaults hfound typeArgs underlying).ok mapped hmapped
    refine ⟨args, hvalue, ?_⟩
    have hcount := congrArg List.length hparams
    rw [List.length_map, List.length_map] at hcount
    rw [hargs, hlength, hcount]

end Workspace

def anyType : SourceType := .named ⟨none, "any", [], none⟩

def comparableType : SourceType := .named ⟨none, "comparable", [], none⟩

/-- A record of two parameters that mentions the second one first and itself last. -/
def pairType : TypeDecl where
  name := "Pair"
  typeParams := [⟨"K", comparableType⟩, ⟨"V", anyType⟩]
  underlying := .struct [
    ⟨"Value", .typeParam "V" anyType, false, "", []⟩,
    ⟨"Key", .typeParam "K" comparableType, false, "", []⟩,
    ⟨"Next", .named ⟨some "m", "Pair", [.typeParam "K" comparableType, .typeParam "V" anyType], none⟩,
      false, "", []⟩]

def pairPackage : Package where
  path := "m"
  name := "m"
  objects := [.typeName pairType]

def pairWorkspace : Workspace := .ofPackages [pairPackage] (by decide)

theorem pairType_coherent : pairType.Coherent := by
  refine ⟨by decide, fun t ht => ?_⟩
  rcases List.mem_cons.mp ht with rfl | ht
  · exact List.nil_subset _
  · rcases List.mem_cons.mp ht with rfl | ht
    · exact List.nil_subset _
    · cases List.mem_singleton.mp ht
      change [⟨"V", anyType⟩, ⟨"K", comparableType⟩, ⟨"K", comparableType⟩, ⟨"V", anyType⟩] ⊆
        [(⟨"K", comparableType⟩ : TypeParamDecl), ⟨"V", anyType⟩]
      simp

theorem typeParams_kept_pair : pairType.Coherent ∧ ∃ g node, pairWorkspace.convert.1 = .ok g ∧
    (pairPackage, .typeName pairType) ∈ pairWorkspace.build.state.declared ∧
    g.get? "Pair" = some node ∧ node.form.name? = some (pairWorkspace.identifier "m" "Pair") ∧
    node.form.typeParams.map TypeParameter.name = [{ name := "K" }, { name := "V" }] ∧
    ∀ name, (pairWorkspace.declareType pairPackage pairType).result ≠
      .error (.typeParameterCollision name) := by
  obtain ⟨g, node, hg, hnode, hview⟩ :
      ∃ g node, pairWorkspace.convert.1 = .ok g ∧ g.get? "Pair" = some node ∧
        (node.form.name?, node.form.isEnum) = (some ⟨"Pair", some "m", ""⟩, false) :=
    Workspace.exists_node_of_view (fun _ node => (node.form.name?, node.form.isEnum))
      (by decide +kernel)
  rw [Prod.mk.injEq] at hview
  have hdeclared : (pairPackage, .typeName pairType) ∈ pairWorkspace.build.state.declared :=
    Workspace.mem_declared_of_generate (by unfold Workspace.DistinctNames; decide +kernel) hg
      ⟨List.mem_cons_self, List.mem_cons_self⟩ (by decide +kernel) rfl
  have hkept := Workspace.typeParams_kept (w := pairWorkspace) rfl pairPackage pairType_coherent
  have hparams := (hkept.2 g "Pair" node hg hdeclared hnode hview.1).2 rfl hview.2
  exact ⟨pairType_coherent, g, node, hg, hdeclared, hnode, hview.1, hparams.1, hkept.1⟩

/-- A basic type with a parameter. -/
def idType : TypeDecl where
  name := "ID"
  typeParams := [⟨"T", anyType⟩]
  underlying := .basic .string

/-- A record whose own type is the argument of the basic type. -/
def idPackage : Package where
  path := "m"
  name := "m"
  objects := [
    .typeName idType,
    .typeName {
      name := "User"
      underlying := .struct [
        ⟨"ID", .named ⟨some "m", "ID", [.named ⟨some "m", "User", [], none⟩], none⟩, false, "", []⟩] }]

def idWorkspace : Workspace := .ofPackages [idPackage] (by decide)

/-- The basic type loses its parameter, and an instantiation of it still has an argument. -/
theorem typeParams_lost : idType.Coherent ∧ ∃ g node user, idWorkspace.convert.1 = .ok g ∧
    (idPackage, .typeName idType) ∈ idWorkspace.build.state.declared ∧
    g.get? "ID" = some node ∧ node.form.name? = some (idWorkspace.identifier "m" "ID") ∧
    node.form.typeParams.map TypeParameter.name ≠ [{ name := "T" }] ∧ g.get? "User" = some user ∧
    ∃ arg, Expr.reference (idWorkspace.identifier "m" "ID") [arg] ∈ user.subterms := by
  obtain ⟨g, node, hg, hnode, hview⟩ :
      ∃ g node, idWorkspace.convert.1 = .ok g ∧ g.get? "ID" = some node ∧
        (node.form.name?, node.form.typeParams.map TypeParameter.name,
          (g.get? "User").map fun user => user.subterms.filterMap Expr.arity?) =
        (some ⟨"ID", some "m", ""⟩, [], some [(⟨"User", some "m", ""⟩, 0), (⟨"ID", some "m", ""⟩, 1)]) :=
    Workspace.exists_node_of_view (fun g node =>
      (node.form.name?, node.form.typeParams.map TypeParameter.name,
        (g.get? "User").map fun user => user.subterms.filterMap Expr.arity?)) (by decide +kernel)
  rw [Prod.mk.injEq, Prod.mk.injEq] at hview
  obtain ⟨hname, hparams, huser⟩ := hview
  obtain ⟨user, hget, hreferences⟩ := Option.map_eq_some_iff.mp huser
  have hmem : ((⟨"ID", some "m", ""⟩ : Identifier), 1) ∈ user.subterms.filterMap Expr.arity? := by
    rw [hreferences]
    decide
  obtain ⟨args, href, hlength⟩ := Expr.exists_reference_of_arity? hmem
  obtain ⟨arg, rfl⟩ := List.length_eq_one_iff.mp hlength
  refine ⟨⟨by decide, fun t ht => ?_⟩, g, node, user, hg, ?_, hnode, hname, ?_, hget, arg, href⟩
  · rcases List.mem_cons.mp ht with rfl | ht
    · exact List.nil_subset _
    · cases List.mem_singleton.mp ht
      exact List.nil_subset _
  · exact Workspace.mem_declared_of_generate (by unfold Workspace.DistinctNames; decide +kernel) hg
      ⟨List.mem_cons_self, List.mem_cons_self⟩ (by decide +kernel) rfl
  · rw [hparams]
    decide

end TypeBridge
