import TypeBridge.Proofs.Conversion
import TypeBridge.Proofs.Generics

/-!
What names mean in a finished graph. Declarations, type parameters and the map type share one space
of names, and nothing keeps them apart. A reference to an object means a type parameter instead only
where the source puts both under one emitted name into one declaration, and the map type is hidden
only by a converted object or a type parameter of its name.
-/

namespace TypeBridge

/-- No reference to an object has the emitted name of a type parameter of its declaration. -/
def Declaration.Uncaptured (d : Declaration) : Prop :=
  ∀ name args, Expr.reference name args ∈ d.subterms → name.package.isSome = true →
    ∀ q ∈ d.form.typeParams, name.emitted ≠ q.name.emitted

/-- Where a declaration of the graph mentions a map, the name of the map type has no other meaning:
no declaration of the graph and no type parameter of that declaration has it. -/
def Graph.KeepsMapType (g : Graph) (d : Declaration) : Prop :=
  ∀ key value, Expr.builtin recordName [key, value] ∈ d.subterms →
    g.contains recordName = false ∧ ∀ q ∈ d.form.typeParams, q.name.emitted ≠ recordName

/-- Whether an object is declared under its own name: types with a counterpart are, and constants
that belong to no named type. -/
def Object.isDeclared : Object → Bool
  | .typeName d => !d.isBehavioral
  | .const c => c.enumType?.isNone
  | .var _ => false
  | .func _ => false

namespace Workspace

variable {w : Workspace}

/-- The expressions that overrides put in refer to nothing. -/
def PlainOverrides (w : Workspace) : Prop :=
  ∀ key e, w.overrides.get? key = some (.expression e) →
    ∀ name args, Expr.reference name args ∉ e.subterms

/-- The types that mapping a declaration may look into: its own, and those that overrides stand
for. -/
def typesIn (w : Workspace) (d : TypeDecl) : List SourceType :=
  d.types ++ w.overrides.values.flatMap TypeOverride.types

/-- The type parameters that a declaration has or mentions. -/
def paramsIn (w : Workspace) (d : TypeDecl) : List String :=
  d.typeParams.map TypeParamDecl.name ++ (w.typesIn d).flatMap SourceType.params

/-- The objects that a declaration names. -/
def objectsIn (w : Workspace) (d : TypeDecl) : List ObjectName :=
  (w.typesIn d).flatMap SourceType.objects

/-- No declared object that a declaration names is emitted under the name of a type parameter in
it. -/
def Apart (w : Workspace) (d : TypeDecl) : Prop :=
  ∀ x ∈ w.objectsIn d, (w.find? x.package x.name).isSome = true →
    (w.identifier x.package x.name).emitted ∉ w.paramsIn d

instance (w : Workspace) (d : TypeDecl) : Decidable (w.Apart d) :=
  inferInstanceAs (Decidable (∀ x ∈ w.objectsIn d, _))

/-- A converted type whose declaration has the name of the given one. -/
def Originates (w : Workspace) (node : Declaration) (d : TypeDecl) : Prop :=
  ∃ p, w.Converted (p, .typeName d) ∧ node.form.name? = some (w.identifier p.path d.name)

/-- The names that a declaration may refer to: names outside every package, and declared objects that
it names. -/
def Nameable (w : Workspace) (d : TypeDecl) (name : Identifier) : Prop :=
  name.package = none ∨ ∃ x ∈ w.objectsIn d, (w.find? x.package x.name).isSome = true ∧
    name = w.identifier x.package x.name

theorem accounted_of_typesIn {d : TypeDecl} {t : SourceType} (ht : t ∈ w.typesIn d)
    (E : List Effect) : t.Accounted w E (w.Nameable d) where
  objects x hx hfound _ := Or.inr ⟨x, List.mem_flatMap.mpr ⟨t, ht, hx⟩, hfound, rfl⟩
  params _ _ := Or.inl rfl

theorem uses_of_typesIn {d : TypeDecl} {t : SourceType} (ht : t ∈ w.typesIn d) :
    t.Uses fun name _ => name ∈ w.paramsIn d := by
  intro name constraint hmem
  have hparam : name ∈ t.params := SourceType.mem_params_iff.mpr ⟨constraint, hmem⟩
  exact List.mem_append_right _ (List.mem_flatMap.mpr ⟨t, ht, hparam⟩)

theorem mem_typesIn_of_override (d : TypeDecl) {key : String} {t : SourceType}
    (h : w.overrides.get? key = some (.type t)) : t ∈ w.typesIn d :=
  List.mem_append_right _ (List.mem_flatMap.mpr
    ⟨.type t, Keyed.mem_values_iff.mpr ⟨key, h⟩, List.mem_cons_self⟩)

theorem mem_typesIn_constraint {d : TypeDecl} {q : TypeParamDecl} (hq : q ∈ d.typeParams) :
    q.constraint ∈ w.typesIn d :=
  List.mem_append_left _ (List.mem_append_left _ (List.mem_map_of_mem hq))

theorem mem_typesIn_underlying (w : Workspace) (d : TypeDecl) : d.underlying ∈ w.typesIn d :=
  List.mem_append_left _ (List.mem_append_right _ List.mem_cons_self)

/-- Whatever a type emits refers to nameable names only. -/
theorem typeEmission_nameable (hplain : w.PlainOverrides) {p : Package} {d : TypeDecl}
    {e : Emission} (he : (w.declareType p d).result = .ok e) :
    TypeEmission w p d (w.Nameable d) e := by
  refine yields_declareType (E := (w.declareType p d).effects) ⟨Or.inl rfl, fun _ => Or.inl rfl⟩
    ?_ ?_ ?_ ?_ (List.Subset.refl _) e he
  · intro key e hget name args hmem
    exact absurd hmem (hplain key e hget name args)
  · intro key t hget
    exact accounted_of_typesIn (mem_typesIn_of_override d hget) _
  · intro q hq
    have hconstraint : q.constraint ∈ w.typesIn d := mem_typesIn_constraint hq
    exact ⟨(accounted_of_typesIn hconstraint _).objects, fun _ _ => Or.inl rfl⟩
  · exact accounted_of_typesIn (w.mem_typesIn_underlying d) _

/-- A parameter named like one that the declaration has or mentions. -/
def Known (w : Workspace) (d : TypeDecl) (q : TypeParameter) : Prop :=
  ∃ name ∈ w.paramsIn d, q.name = { name := name }

theorem fitting_known (w : Workspace) (d : TypeDecl) :
    Fitting (fun _ => True) (w.Known d) (fun _ => True) where
  keyword _ := trivial
  null := trivial
  array _ _ := trivial
  union _ _ := trivial
  reference _ _ _ := trivial
  simplify params h := by
    refine ⟨fun kept hkept q hq => ?_, fun _ _ => trivial⟩
    obtain ⟨p, hp, rfl⟩ := TypeParameter.exists_tidy_of_simplify hkept hq
    exact h p hp
  unsupported _ _ := trivial
  structTag _ _ _ := trivial

/-- Whatever a type emits has known parameters only. -/
theorem known_of_declareType {p : Package} {d : TypeDecl} {e : Emission}
    (he : (w.declareType p d).result = .ok e) {key : String} {node : Declaration}
    (hnode : e.declaration? key = some node) : ∀ q ∈ node.form.typeParams, w.Known d q := by
  have hmap : ∀ t : SourceType, t.Uses (fun name _ => name ∈ w.paramsIn d) →
      (w.mapType t).Meets (MappedType.Has (fun _ => True) (w.Known d)) (fun _ => True) :=
    fun _ ht => meets_mapType (w.fitting_known d) (fun _ _ _ => trivial)
      (fun _ _ hget => uses_of_typesIn (mem_typesIn_of_override d hget))
      (fun name _ _ hname => ⟨name, hname, rfl⟩) ht
  have hparams : ∀ q ∈ d.typeParams, (SourceType.typeParam q.name q.constraint).Uses
      (fun name _ => name ∈ w.paramsIn d) := by
    intro q hq name constraint hmem
    rcases List.mem_cons.mp hmem with heq | hmem
    · cases heq
      exact List.mem_append_left _ (List.mem_map_of_mem hq)
    · exact uses_of_typesIn (mem_typesIn_constraint hq) name constraint hmem
  obtain ⟨params, -, hknown, hemission⟩ :=
    (meets_declareType (w.fitting_known d) hmap hparams
      (uses_of_typesIn (w.mem_typesIn_underlying d))).ok e he
  cases hemission with
  | nothing => cases hnode
  | define _ _ hmentioned hsimplify =>
      obtain ⟨-, rfl⟩ := Emission.declaration?_define_eq_some.mp hnode
      intro q hq
      obtain ⟨p, hp, rfl⟩ := TypeParameter.exists_tidy_of_simplify hsimplify hq
      exact (List.mem_append.mp hp).elim (hknown p) (hmentioned p)
  | fill =>
      obtain ⟨-, rfl⟩ := Emission.declaration?_fill_eq_some.mp hnode
      exact List.forall_mem_nil _

/-- A declaration with type parameters is what a converted type of its name emitted. -/
theorem exists_generic_origin {g : Graph} (h : w.convert.1 = .ok g) {key : String}
    {node : Declaration} (hnode : g.get? key = some node) {q : TypeParameter}
    (hq : q ∈ node.form.typeParams) :
    ∃ p d e, w.Originates node d ∧ (w.declareType p d).result = .ok e ∧
      e.declaration? key = some node := by
  obtain ⟨s, hs⟩ := exists_finished h
  rcases hs.exists_origin hnode with ⟨⟨p, o⟩, howner, emitted, hemitted, rfl⟩ | ⟨b, -, rfl⟩
  · have hsame := withMembers_eq_of_typeParams hq
    rw [hsame] at hq ⊢
    obtain ⟨-, hname⟩ := name_of_declaration? hemitted
    have hconverted := hs.late.sound.converted _ howner
    obtain ⟨e, he⟩ := hs.late.sound.maps _ howner
    rw [emission_of_ok he] at hemitted
    cases o with
    | typeName d => exact ⟨p, d, e, ⟨p, hconverted, hname⟩, he, hemitted⟩
    | const c =>
        cases constEmission_of_declare he with
        | skipped => cases hemitted
        | member => cases hemitted
        | constant =>
            obtain ⟨-, rfl⟩ := Emission.declaration?_define_eq_some.mp hemitted
            cases hq
    | var d => cases he; cases hemitted
    | func d => cases he; cases hemitted
  · cases hq

/-- A type that describes behaviour emits nothing. -/
theorem eq_nothing_of_isBehavioral {p : Package} {d : TypeDecl} (hbehavioral : d.isBehavioral = true)
    {e : Emission} (he : (w.declareType p d).result = .ok e) : e = .nothing := by
  have hmeets : (w.declareType p d).Meets (fun e => e = .nothing) fun _ => True := by
    refine (Mapping.Meets.any _).bind fun params _ => ?_
    unfold TypeDecl.isBehavioral at hbehavioral
    split at hbehavioral
    · rename_i hunderlying
      rw [hunderlying]
      exact Mapping.Meets.pure rfl
    · rename_i hunderlying
      rw [hunderlying]
      exact Mapping.Meets.pure rfl
    · cases hbehavioral
  exact hmeets.ok e he

theorem isDeclared_of_declaration? {x : Package × Object} {key : String} {node : Declaration}
    (h : (w.emission x).declaration? key = some node) : x.2.isDeclared = true := by
  have hok := declare_of_declaration? h
  obtain ⟨p, o⟩ := x
  generalize w.emission (p, o) = e at h hok
  cases o with
  | typeName d =>
      cases hbehavioral : d.isBehavioral with
      | false => rw [Object.isDeclared, hbehavioral, Bool.not_false]
      | true =>
          rw [eq_nothing_of_isBehavioral hbehavioral hok] at h
          cases h
  | const c =>
      cases constEmission_of_declare hok with
      | skipped => cases h
      | member => cases h
      | constant htype => rw [Object.isDeclared, htype, Option.isNone_none]
  | var d => cases hok; cases h
  | func d => cases hok; cases h

/-- The map type is a declaration of the graph only if a converted object is declared under its
name. -/
theorem contains_recordName {g : Graph} (h : w.convert.1 = .ok g)
    (hfree : ∀ x, w.Converted x → x.2.isDeclared = true →
      (w.identifier x.1.path x.2.name).emitted ≠ recordName) :
    g.contains recordName = false := by
  rw [Bool.eq_false_iff]
  intro hcontains
  obtain ⟨node, hnode⟩ :=
    Option.isSome_iff_exists.mp ((Keyed.contains_iff_isSome _ _).mp hcontains)
  obtain ⟨s, hs⟩ := exists_finished h
  rcases hs.exists_origin hnode with ⟨owner, howner, emitted, hemitted, -⟩ | ⟨b, hname, -⟩
  · obtain ⟨hkey, -⟩ := name_of_declaration? hemitted
    exact hfree owner (hs.late.sound.converted _ howner) (isDeclared_of_declaration? hemitted)
      hkey.symm
  · cases b
    exact absurd hname (by decide)

/-- A declaration whose source keeps its objects apart from its type parameters captures no
reference, and maps mean maps in it where no converted object is declared and no type parameter in it
is called like the map type. -/
theorem names_denote (hplain : w.PlainOverrides) {g : Graph} (h : w.convert.1 = .ok g)
    {key : String} {node : Declaration} (hnode : g.get? key = some node) :
    ((∀ d, w.Originates node d → w.Apart d) → node.Uncaptured) ∧
    ((∀ x, w.Converted x → x.2.isDeclared = true →
        (w.identifier x.1.path x.2.name).emitted ≠ recordName) →
      (∀ d, w.Originates node d → recordName ∉ w.paramsIn d) → g.KeepsMapType node) := by
  constructor
  · intro hapart name args href hpackage q hq hcaptured
    obtain ⟨p, d, e, horigin, he, hemitted⟩ := exists_generic_origin h hnode hq
    obtain ⟨param, hparam, hqname⟩ := known_of_declareType he hemitted q hq
    have hnameable : w.Nameable d name := by
      cases typeEmission_nameable hplain he with
      | skipped => cases hemitted
      | defined _ _ hwithin =>
          obtain ⟨-, rfl⟩ := Emission.declaration?_define_eq_some.mp hemitted
          exact hwithin name args href
      | filled =>
          obtain ⟨-, rfl⟩ := Emission.declaration?_fill_eq_some.mp hemitted
          cases hq
    rcases hnameable with hnone | ⟨x, hx, hfound, rfl⟩
    · rw [hnone] at hpackage
      cases hpackage
    · apply hapart d horigin x hx hfound
      rw [hcaptured, hqname]
      simpa [Identifier.emitted] using hparam
  · intro hfree hparams key value href
    refine ⟨contains_recordName h hfree, fun q hq hcaptured => ?_⟩
    obtain ⟨p, d, e, horigin, he, hemitted⟩ := exists_generic_origin h hnode hq
    obtain ⟨param, hparam, hqname⟩ := known_of_declareType he hemitted q hq
    apply hparams d horigin
    rw [← hcaptured, hqname]
    simpa [Identifier.emitted] using hparam

theorem plainOverrides_ofPackages (packages : List Package)
    (h : (packages.map Package.path).Nodup) : (ofPackages packages h).PlainOverrides := by
  intro key e hget name args hmem
  cases (TypeOverride.eq_of_get?_defaults hget).2
  cases List.mem_singleton.mp hmem

end Workspace

/-- A generic record with a field of its parameter, one of a type of another package, and a map. -/
def boxPackage : Package where
  path := "a"
  name := "a"
  objects := [.typeName {
    name := "Box"
    typeParams := [⟨"T", .named ⟨none, "any", [], none⟩⟩]
    underlying := .struct [
      ⟨"Value", .typeParam "T" (.named ⟨none, "any", [], none⟩), false, "", []⟩,
      ⟨"Other", .named ⟨some "b", "T", [], none⟩, false, "", []⟩,
      ⟨"Index", .map (.basic .string) (.basic .int), false, "", []⟩] }]

/-- Types called like the parameter and like the map type. -/
def namesakes : Package where
  path := "b"
  name := "b"
  objects := [
    .typeName { name := "T", underlying := .basic .string },
    .typeName { name := "Record", underlying := .basic .bool }]

/-- With prefixes, the namesakes are emitted under other names. -/
def prefixedWorkspace : Workspace :=
  .ofPackages [boxPackage, { namesakes with namePrefix := "B" }] (by decide)

/-- Without prefixes, they are not. -/
def collidingWorkspace : Workspace := .ofPackages [boxPackage, namesakes] (by decide)

/-- The references of a declaration with their numbers of arguments, the names of its type parameters,
and whether the graph declares the map type. -/
def namesView (g : Graph) (node : Declaration) : List (Identifier × Nat) × List Identifier × Bool :=
  (node.subterms.filterMap Expr.arity?, node.form.typeParams.map TypeParameter.name,
    g.contains recordName)

theorem names_denote_prefixed : prefixedWorkspace.PlainOverrides ∧ ∃ g node,
    prefixedWorkspace.convert.1 = .ok g ∧ g.get? "Box" = some node ∧
    namesView g node = ([(⟨"T", none, ""⟩, 0), (⟨"T", some "b", "B"⟩, 0), (⟨"Record", none, ""⟩, 2)],
      [⟨"T", none, ""⟩], false) ∧
    node.Uncaptured ∧ g.KeepsMapType node := by
  have hplain : prefixedWorkspace.PlainOverrides := Workspace.plainOverrides_ofPackages _ _
  obtain ⟨g, node, hg, hnode, hview⟩ :
      ∃ g node, prefixedWorkspace.convert.1 = .ok g ∧ g.get? "Box" = some node ∧
        namesView g node = ([(⟨"T", none, ""⟩, 0), (⟨"T", some "b", "B"⟩, 0),
          (⟨"Record", none, ""⟩, 2)], [⟨"T", none, ""⟩], false) :=
    Workspace.exists_node_of_view namesView (by decide +kernel)
  have hfree : ∀ x ∈ prefixedWorkspace.located,
      (prefixedWorkspace.identifier x.1.path x.2.name).emitted ≠ recordName := by decide +kernel
  have hall : ∀ p d, (p, Object.typeName d) ∈ prefixedWorkspace.located →
      prefixedWorkspace.Apart d ∧ recordName ∉ prefixedWorkspace.paramsIn d := by
    intro p d hmem
    rcases List.mem_cons.mp hmem with heq | hmem
    · cases heq
      decide +kernel
    · rcases List.mem_cons.mp hmem with heq | hmem
      · cases heq
        decide +kernel
      · cases List.mem_singleton.mp hmem
        decide +kernel
  have hsource : ∀ d, prefixedWorkspace.Originates node d →
      prefixedWorkspace.Apart d ∧ recordName ∉ prefixedWorkspace.paramsIn d := by
    rintro d ⟨p, hconverted, -⟩
    exact hall p d (Workspace.mem_located_iff.mpr hconverted.declares)
  have hdenote := Workspace.names_denote hplain hg hnode
  refine ⟨hplain, g, node, hg, hnode, hview, hdenote.1 fun d hd => (hsource d hd).1,
    hdenote.2 (fun x hx _ => ?_) fun d hd => (hsource d hd).2⟩
  exact hfree x (Workspace.mem_located_iff.mpr hx.declares)

theorem names_captured : collidingWorkspace.PlainOverrides ∧ ∃ g node,
    collidingWorkspace.convert.1 = .ok g ∧ g.get? "Box" = some node ∧
    ¬ node.Uncaptured ∧ ¬ g.KeepsMapType node := by
  obtain ⟨g, node, hg, hnode, hview⟩ :
      ∃ g node, collidingWorkspace.convert.1 = .ok g ∧ g.get? "Box" = some node ∧
        namesView g node = ([(⟨"T", none, ""⟩, 0), (⟨"T", some "b", ""⟩, 0),
          (⟨"Record", none, ""⟩, 2)], [⟨"T", none, ""⟩], true) :=
    Workspace.exists_node_of_view namesView (by decide +kernel)
  rw [namesView, Prod.mk.injEq, Prod.mk.injEq] at hview
  obtain ⟨hreferences, hparams, hcontains⟩ := hview
  refine ⟨Workspace.plainOverrides_ofPackages _ _, g, node, hg, hnode, fun huncaptured => ?_,
    fun hkeeps => ?_⟩
  · have hmem : ((⟨"T", some "b", ""⟩ : Identifier), 0) ∈ node.subterms.filterMap Expr.arity? := by
      rw [hreferences]
      decide
    obtain ⟨args, href, -⟩ := Expr.exists_reference_of_arity? hmem
    have hparam : (⟨"T", none, ""⟩ : Identifier) ∈ node.form.typeParams.map TypeParameter.name := by
      rw [hparams]
      decide
    obtain ⟨q, hq, hqname⟩ := List.mem_map.mp hparam
    exact huncaptured _ args href rfl q hq (by rw [hqname]; rfl)
  · have hmem : ((⟨"Record", none, ""⟩ : Identifier), 2) ∈ node.subterms.filterMap Expr.arity? := by
      rw [hreferences]
      decide
    obtain ⟨args, href, hlength⟩ := Expr.exists_reference_of_arity? hmem
    obtain ⟨key, value, rfl⟩ := List.length_eq_two.mp hlength
    have hfree := (hkeeps key value href).1
    rw [hcontains] at hfree
    cases hfree

end TypeBridge
