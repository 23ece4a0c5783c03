import TypeBridge.Proofs.Conversion

/-!
References of a finished graph. Whatever a declaration refers to is accounted for: the map type of
the target language, a builtin that the graph has, a type parameter of the declaration itself, or an
object of the source. Such an object has a declaration of exactly that name in the graph, unless it
is left out or has no counterpart.
-/

namespace TypeBridge

/-- A name that stands for something whatever declaration refers to it. -/
inductive Linked (w : Workspace) (g : Graph) : Identifier → Prop
  | record : Linked w g { name := recordName }
  | comparable (h : g.contains Builtin.comparable.name = true) :
      Linked w g { name := Builtin.comparable.name }
  | ignored {package name : String} (h : w.isIgnored package name = true) :
      Linked w g (w.identifier package name)
  | value {package name : String} {p : Package} {o : Object}
      (hfind : w.find? package name = some (p, o)) (h : ∀ d, o ≠ .typeName d) :
      Linked w g (w.identifier package name)
  | behavioral {package name : String} {p : Package} {d : TypeDecl}
      (hfind : w.find? package name = some (p, .typeName d)) (h : d.isBehavioral = true) :
      Linked w g (w.identifier package name)
  | node {package name : String} {target : Declaration}
      (hnode : g.get? (w.identifier package name).emitted = some target)
      (hname : target.form.name? = some (w.identifier package name)) :
      Linked w g (w.identifier package name)

theorem Declaration.within_iff_exprs {allowed : Identifier → Prop} {d : Declaration} :
    d.Within allowed ↔ ∀ e ∈ d.form.exprs, e.Within allowed := by
  refine ⟨fun h e he name args hmem => ?_, Declaration.within_of_exprs⟩
  exact h name args (List.mem_flatMap.mpr ⟨e, he, hmem⟩)

theorem Builtin.within_declaration {allowed : Identifier → Prop} (b : Builtin) :
    b.declaration.Within allowed := by
  refine Declaration.within_of_exprs fun e he => ?_
  cases List.mem_singleton.mp he
  refine Expr.within_union_iff.mpr fun arm harm => ?_
  rcases List.mem_cons.mp harm with rfl | harm
  · exact Expr.within_keyword _
  · rcases List.mem_cons.mp harm with rfl | harm
    · exact Expr.within_keyword _
    · cases List.mem_singleton.mp harm
      exact Expr.within_keyword _

/-- Members without references, attached to a declaration, bring no new references into it. -/
theorem within_withMembers {linked : Identifier → Prop} {d : Declaration}
    {members : List EnumMember}
    (h : d.Within fun name => (∃ q ∈ d.form.typeParams, q.name = name) ∨ linked name)
    (hmembers : ∀ m ∈ members, ∀ e, m.value = some e → e.Within fun _ => False) :
    (d.withMembers members).Within fun name =>
      (∃ q ∈ (d.withMembers members).form.typeParams, q.name = name) ∨ linked name := by
  cases members with
  | nil => exact h
  | cons m rest =>
      rw [Declaration.withMembers]
      have hnew : ∀ e ∈ (m :: rest).flatMap fun m => m.value.toList, ∀ name args,
          Expr.reference name args ∉ e.subterms := by
        intro e he name args hmem
        obtain ⟨m', hm', he⟩ := List.mem_flatMap.mp he
        exact hmembers m' hm' e (Option.mem_toList.mp he) name args hmem
      split
      · refine Declaration.within_iff_exprs.mpr fun e he name args hmem => ?_
        exact absurd hmem (hnew e he name args)
      · rename_i name old hform
        refine Declaration.within_iff_exprs.mpr fun e he name' args hmem => ?_
        rw [Form.exprs, List.flatMap_append] at he
        rcases List.mem_append.mp he with hold | hnewest
        · have hexprs : e ∈ d.form.exprs := by
            rw [hform]
            exact hold
          have hallowed := Declaration.within_iff_exprs.mp h e hexprs name' args hmem
          rw [hform] at hallowed
          exact hallowed
        · exact absurd hmem (hnew e hnewest name' args)
      · exact h

namespace Finished

variable {w : Workspace} {s : Progress} {g : Graph}

/-- A declared object that emits a declaration has a node of its name. -/
theorem exists_node (h : Finished w s g) {d : Package × Object} (hd : d ∈ s.declared)
    {key : String} {node : Declaration} (hnode : (w.emission d).declaration? key = some node) :
    ∃ target, g.get? (w.identifier d.1.path d.2.name).emitted = some target ∧
      target.form.name? = some (w.identifier d.1.path d.2.name) := by
  obtain ⟨rfl, hname⟩ := Workspace.name_of_declaration? hnode
  refine ⟨_, h.get?_eq hd hnode, ?_⟩
  rw [name?_withMembers, hname]

/-- What a declared type announces is linked. -/
theorem linked_of_references (h : Finished w s g) {p : Package} {d : TypeDecl}
    (hd : (p, .typeName d) ∈ s.declared) {x : ObjectName}
    (hx : x ∈ w.references p (.typeName d)) : Linked w g (w.identifier x.package x.name) := by
  rcases Workspace.find?_of_references hx with hfound | ⟨c, hconst, -⟩
  · cases hignored : w.isIgnored x.package x.name with
    | true => exact .ignored hignored
    | false =>
        obtain ⟨⟨p', o⟩, hfind⟩ := Option.isSome_iff_exists.mp hfound
        have hdeclared := h.late.closed p d hd x hx _ hfind hignored
        cases o with
        | typeName target =>
            obtain ⟨e, he⟩ := h.late.sound.maps _ hdeclared
            obtain rfl : nameOf (p', .typeName target) = x := Workspace.nameOf_of_find? hfind
            have hemission : w.emission (p', .typeName target) = e := Workspace.emission_of_ok he
            cases Workspace.typeEmission_of_declare he with
            | skipped hbehavioral => exact .behavioral hfind hbehavioral
            | defined =>
                obtain ⟨node, hnode, hname⟩ := h.exists_node hdeclared
                  (hemission ▸ Emission.declaration?_define_eq_some.mpr ⟨rfl, rfl⟩)
                exact .node hnode hname
            | filled =>
                obtain ⟨node, hnode, hname⟩ := h.exists_node hdeclared
                  (hemission ▸ Emission.declaration?_fill_eq_some.mpr ⟨rfl, rfl⟩)
                exact .node hnode hname
        | _ => exact .value hfind fun _ => Object.noConfusion
  · cases hconst

theorem contains_of_require (h : Finished w s g) {b : Builtin} {d : Package × Object}
    (hd : d ∈ s.declared) (hb : Effect.require b ∈ (w.declare d.1 d.2).effects) :
    g.contains b.name = true := by
  have hbuiltin : b ∈ s.builtins := (h.late.sound.builtins b).mpr ⟨d, hd, hb⟩
  obtain ⟨node, hnode⟩ : ∃ node, g.get? b.name = some node := by
    cases hkey : s.store.contains b.name with
    | true => exact h.complete _ hkey
    | false => exact ⟨b.declaration, (h.node_iff _ _).mpr (Or.inr ⟨hkey, b, hbuiltin, rfl, rfl⟩)⟩
  rw [Graph.contains, Keyed.contains_iff_isSome]
  exact Option.isSome_iff_exists.mpr ⟨node, hnode⟩

/-- The references in what a declared object emits. -/
theorem within_of_emission (h : Finished w s g)
    (hexpr : ∀ key e, w.overrides.get? key = some (.expression e) →
      ∀ name args, Expr.reference name args ∉ e.subterms)
    (hov : ∀ key t, w.overrides.get? key = some (.type t) → t.params = [])
    (hown : ∀ p d, w.Declares p (.typeName d) → d.UsesOwnParams) {d : Package × Object}
    (hd : d ∈ s.declared) {key : String} {node : Declaration}
    (hnode : (w.emission d).declaration? key = some node) :
    node.Within fun name => (∃ q ∈ node.form.typeParams, q.name = name) ∨ Linked w g name := by
  obtain ⟨e, he⟩ := h.late.sound.maps d hd
  rw [Workspace.emission_of_ok he] at hnode
  obtain ⟨p, o⟩ := d
  cases o with
  | typeName d =>
      let allowed : Identifier → Prop := fun name =>
        (∃ n ∈ d.typeParams.map TypeParamDecl.name, name = { name := n }) ∨ Linked w g name
      have hown := hown p d (h.late.sound.converted _ hd).declares
      have hlinked : ∀ x, Effect.reference x ∈ (w.declareType p d).effects →
          allowed (w.identifier x.package x.name) := fun x hx =>
        Or.inr (h.linked_of_references hd (Workspace.mem_references_iff.mpr hx))
      have hunderlying : d.underlying ∈ d.types := List.mem_append_right _ List.mem_cons_self
      have hemission : Workspace.TypeEmission w p d allowed e := by
        refine Workspace.yields_declareType ⟨?_, ?_⟩ ?_ ?_ ?_ ?_ (List.Subset.refl _) e he
        · exact Or.inr .record
        · exact fun hb => Or.inr (.comparable (h.contains_of_require hd hb))
        · exact fun key e hget name args hmem => absurd hmem (hexpr key e hget name args)
        · refine fun key t hget => ⟨fun x _ _ hx => hlinked x hx, fun name hname => ?_⟩
          rw [hov key t hget] at hname
          cases hname
        · refine fun q hq => ⟨fun x _ _ hx => hlinked x hx, fun name hname => Or.inl ⟨name, ?_, rfl⟩⟩
          have hconstraint : q.constraint ∈ d.types :=
            List.mem_append_left _ (List.mem_map_of_mem hq)
          rcases List.mem_cons.mp hname with rfl | hname
          · exact List.mem_map_of_mem hq
          · exact hown _ hconstraint hname
        · exact ⟨fun x _ _ hx => hlinked x hx, fun name hname =>
            Or.inl ⟨name, hown _ hunderlying hname, rfl⟩⟩
      cases hemission with
      | skipped => cases hnode
      | @defined declaration _ _ hwithin hparams =>
          obtain ⟨-, rfl⟩ := Emission.declaration?_define_eq_some.mp hnode
          intro name args hmem
          rcases hwithin name args hmem with ⟨n, hn, rfl⟩ | hlinked
          · exact Or.inl (hparams n hn)
          · exact Or.inr hlinked
      | @filled kind mapped _ hmapped =>
          obtain ⟨-, rfl⟩ := Emission.declaration?_fill_eq_some.mp hnode
          refine Declaration.within_of_exprs fun e he => ?_
          cases List.mem_singleton.mp he
          exact (within_of_mapBasic hmapped).value
  | const c =>
      cases Workspace.constEmission_of_declare he with
      | skipped => cases hnode
      | member => cases hnode
      | constant =>
          obtain ⟨-, rfl⟩ := Emission.declaration?_define_eq_some.mp hnode
          refine Declaration.within_of_exprs fun e he => ?_
          cases List.mem_singleton.mp he
          exact Expr.within_literal _
  | var d => cases he; cases hnode
  | func d => cases he; cases hnode

end Finished

/-- Every reference inside a declaration of the finished graph is to one of the declaration's own
type parameters, or is linked. -/
theorem Workspace.references_closed {w : Workspace}
    (hexpr : ∀ key e, w.overrides.get? key = some (.expression e) →
      ∀ name args, Expr.reference name args ∉ e.subterms)
    (hov : ∀ key t, w.overrides.get? key = some (.type t) → t.params = [])
    (hown : ∀ p d, w.Declares p (.typeName d) → d.UsesOwnParams)
    {g : Graph} (h : w.convert.1 = .ok g) {key : String} {d : Declaration}
    (hd : g.get? key = some d) {name : Identifier} {args : List Expr}
    (href : Expr.reference name args ∈ d.subterms) :
    (∃ q ∈ d.form.typeParams, q.name = name) ∨ Linked w g name := by
  obtain ⟨s, hs⟩ := exists_finished h
  rcases (hs.node_iff key d).mp hd with ⟨hkey, hfinish⟩ | ⟨-, b, -, -, rfl⟩
  · have hbuilt := hs.late.sound.built
    obtain ⟨node, hnode, rfl⟩ := Store.finishEntry_eq_ok hfinish
    obtain ⟨e, he, hemitted⟩ := hbuilt.exists_emission hnode
    obtain ⟨owner, howner, rfl⟩ := List.mem_map.mp he
    refine within_withMembers (hs.within_of_emission hexpr hov hown howner hemitted) ?_ name args href
    intro m hm value hvalue
    rw [hbuilt.entry_eq] at hm
    obtain ⟨e', he', hmember⟩ := List.mem_filterMap.mp hm
    obtain ⟨constant, -, rfl⟩ := List.mem_map.mp he'
    obtain ⟨c, t, -, -, -, -, -, -, rfl⟩ := const_of_member? hmember
    cases hvalue
    exact Expr.within_literal _
  · exact Or.inr (b.within_declaration name args href)

/-- A basic type, and a generic map from comparable keys to it. -/
def genericMap : Package where
  path := "m"
  name := "m"
  objects := [
    .typeName { name := "Label", underlying := .basic .string },
    .typeName {
      name := "Labels"
      typeParams := [⟨"K", .named ⟨none, "comparable", [], none⟩⟩]
      underlying := .map (.typeParam "K" (.named ⟨none, "comparable", [], none⟩))
        (.named ⟨some "m", "Label", [], none⟩) }]

def genericMapWorkspace : Workspace := .ofPackages [genericMap] (by decide)

theorem references_closed_genericMap : ∃ g d, genericMapWorkspace.convert.1 = .ok g ∧
    g.get? "Labels" = some d ∧
    (d.subterms.filterMap Expr.referenceName?).map Identifier.emitted =
      ["Comparable", "K", "Label", "Record"] ∧
    ∀ name args, Expr.reference name args ∈ d.subterms →
      (∃ q ∈ d.form.typeParams, q.name = name) ∨ Linked genericMapWorkspace g name := by
  have hrun : ((genericMapWorkspace.convert.1.toOption.bind fun g => g.get? "Labels").map fun d =>
      (d.subterms.filterMap Expr.referenceName?).map Identifier.emitted) =
        some ["Comparable", "K", "Label", "Record"] := by decide +kernel
  obtain ⟨d, hd, hnames⟩ := Option.map_eq_some_iff.mp hrun
  obtain ⟨g, hg, hget⟩ := Option.bind_eq_some_iff.mp hd
  have hok : genericMapWorkspace.convert.1 = .ok g := by
    cases hresult : genericMapWorkspace.convert.1 with
    | error e => rw [hresult] at hg; cases hg
    | ok g' => rw [hresult] at hg; cases hg; rfl
  have hoverrides : ∀ key o, genericMapWorkspace.overrides.get? key = some o →
      o = TypeOverride.keyword .string := by
    intro key o ho
    have hmem : (key, o) ∈ [("error", TypeOverride.keyword .string)] := Keyed.mem_entries_iff.mpr ho
    exact congrArg Prod.snd (List.mem_singleton.mp hmem)
  refine ⟨g, d, hok, hget, hnames, fun name args href =>
    Workspace.references_closed (fun key e he => ?_) (fun key t ht => ?_) ?_ hok hget href⟩
  · cases hoverrides key _ he
    intro name args hmem
    cases List.mem_singleton.mp hmem
  · cases hoverrides key _ ht
  · rintro p d ⟨hp, hd⟩
    cases List.mem_singleton.mp hp
    rcases List.mem_cons.mp hd with heq | hd
    · cases heq
      unfold TypeDecl.UsesOwnParams
      decide
    · cases List.mem_singleton.mp hd
      unfold TypeDecl.UsesOwnParams
      decide

end TypeBridge
