import TypeBridge.Proofs.Enums
import TypeBridge.Proofs.Generics

/-!
Whose members an enum has. Members are attached to the declaration of the emitted name of their type.
Where the package of that type declares it, this is the type itself; a constant that says itself what
its type stands for is not asked whether the type is declared, and its member may end up in the enum
of a namesake.
-/

namespace TypeBridge

/-- Whether the type of a constant says itself what it stands for. -/
def ConstDecl.isSelfContained (c : ConstDecl) : Bool :=
  match c.type with
  | .named named => named.underlying.isSome
  | _ => false

def Object.isSelfContained : Object → Bool
  | .const c => c.isSelfContained
  | _ => false

/-- Attached to a declaration that is no enum, members make an enum of exactly these members. -/
theorem members_of_withMembers {d : Declaration} {queued members : List EnumMember}
    {name : Identifier} (hother : d.form.isEnum = false)
    (h : (d.withMembers queued).form = .enumeration name members) : members = queued := by
  obtain ⟨modifiers, source, comments, form⟩ := d
  cases queued with
  | nil =>
      rw [show form = .enumeration name members from h] at hother
      cases hother
  | cons m rest =>
      cases form with
      | enumeration other old => cases hother
      | typeAlias other params type =>
          cases h
          rfl
      | record other params heritage fields => cases h
      | statement kind bindings => cases h

namespace Workspace

variable {w : Workspace}

/-- A type that has a counterpart, declared in its package under a name that nothing else there
has. -/
def DeclaresType (w : Workspace) (t : ObjectName) : Prop :=
  ∃ p d, w.Declares p (.typeName d) ∧ nameOf (p, .typeName d) = t ∧ d.isBehavioral = false ∧
    ∀ o ∈ p.objects, o.name = d.name → o = .typeName d

/-- An emission that is not an enum yet. -/
def NoEnum (e : Emission) : Prop :=
  ∀ key node, e.declaration? key = some node → node.form.isEnum = false

/-- An emission without modifiers that is not an enum yet. -/
def Plain (e : Emission) : Prop :=
  ∀ key node, e.declaration? key = some node → node.modifiers = [] ∧ node.form.isEnum = false

theorem plain_define (key : String) {node : Declaration} (hmodifiers : node.modifiers = [])
    (henum : node.form.isEnum = false) : Plain (.define key node) := by
  intro other node' hnode
  obtain ⟨-, rfl⟩ := Emission.declaration?_define_eq_some.mp hnode
  exact ⟨hmodifiers, henum⟩

theorem plain_fill (key : String) {node : Declaration} (hmodifiers : node.modifiers = [])
    (henum : node.form.isEnum = false) : Plain (.fill key node) := by
  intro other node' hnode
  obtain ⟨-, rfl⟩ := Emission.declaration?_fill_eq_some.mp hnode
  exact ⟨hmodifiers, henum⟩

theorem plain_nothing : Plain .nothing := fun _ _ h => nomatch h

theorem meets_genericAlias_plain (p : Package) (d : TypeDecl) (params : List TypeParameter)
    (mapped : Mapping MappedType) :
    (w.genericAlias p d params mapped).Meets Plain fun _ => True :=
  (Mapping.Meets.any _).bind fun _ _ => (Mapping.Meets.any _).bind fun _ _ =>
    Mapping.Meets.pure (plain_define _ rfl rfl)

theorem meets_declareAs_plain (p : Package) (d : TypeDecl) (params : List TypeParameter)
    (t : SourceType) : (w.declareAs p d params t).Meets Plain fun _ => True := by
  unfold declareAs
  split
  · exact (Mapping.Meets.any _).bind fun _ _ => (Mapping.Meets.any _).bind fun _ _ =>
      Mapping.Meets.pure (plain_define _ rfl rfl)
  · exact (Mapping.Meets.any _).bind fun _ _ => Mapping.Meets.pure (plain_fill _ rfl rfl)
  · exact Mapping.Meets.pure plain_nothing
  · exact meets_genericAlias_plain p d params _
  · exact Mapping.Meets.fail trivial
  · exact Mapping.Meets.pure plain_nothing
  all_goals first
    | exact meets_genericAlias_plain p d params _
    | exact Mapping.Meets.fail trivial

/-- Whatever an object emits has no modifiers and is no enum yet. -/
theorem plain_of_declare {p : Package} {o : Object} {e : Emission}
    (h : (w.declare p o).result = .ok e) : Plain e := by
  cases o with
  | typeName d =>
      have hmeets : (w.declareType p d).Meets Plain fun _ => True :=
        (Mapping.Meets.any _).bind fun params _ => w.meets_declareAs_plain p d params _
      exact hmeets.ok e h
  | const c =>
      cases constEmission_of_declare h with
      | skipped => exact plain_nothing
      | member => exact fun _ _ hnode => nomatch hnode
      | constant => exact plain_define _ rfl rfl
  | var d =>
      cases h
      exact plain_nothing
  | func d =>
      cases h
      exact plain_nothing

theorem noEnum_of_declare {p : Package} {o : Object} {e : Emission}
    (h : (w.declare p o).result = .ok e) : NoEnum e := fun key node hnode =>
  (plain_of_declare h key node hnode).2

theorem exists_basic_of_checkEnumType {owner : Package} {named : NamedType}
    (hself : named.underlying = none) (h : checkEnumType owner named = .ok ()) :
    ∃ d, owner.lookup named.name = some (.typeName d) ∧ d.isBasic = true := by
  unfold checkEnumType underlying? at h
  rw [hself] at h
  cases hlookup : owner.lookup named.name with
  | none =>
      rw [hlookup] at h
      cases h
  | some o =>
      rw [hlookup] at h
      cases o with
      | typeName d =>
          refine ⟨d, rfl, ?_⟩
          unfold TypeDecl.isBasic
          dsimp only at h
          split at h
          · rename_i hunderlying
            rw [Option.some.inj hunderlying]
          · cases h
          · rename_i hunderlying
            cases hunderlying
      | _ => cases h

/-- A constant that relies on its package for its type becomes a member only if its package declares
that type. -/
theorem exists_basic_of_declare {p : Package} {c : ConstDecl} {t : ObjectName} {key : String}
    {m : EnumMember} (htype : c.enumType? = some t) (hself : c.isSelfContained = false)
    (h : (w.declare p (.const c)).result = .ok (.member key m)) :
    ∃ owner d, w.packages.get? t.package = some owner ∧ owner.lookup t.name = some (.typeName d) ∧
      d.isBasic = true := by
  unfold ConstDecl.enumType? at htype
  split at htype
  · rename_i path name typeArgs underlying hconst
    cases htype
    rw [declare, declareConst, hconst] at h
    unfold ConstDecl.isSelfContained at hself
    rw [hconst] at hself
    dsimp only [declareMember] at h hself
    have hself : underlying = none := by simpa using hself
    cases howner : w.packages.get? path with
    | none =>
        rw [howner] at h
        cases h
    | some owner =>
        rw [howner] at h
        dsimp only at h
        split at h
        · cases h
        · cases hcheck : checkEnumType owner ⟨some path, name, typeArgs, underlying⟩ with
          | error e =>
              rw [Mapping.result_bind_of_error (by rw [hcheck]; rfl)] at h
              cases h
          | ok u =>
              obtain ⟨d, hlookup, hbasic⟩ := exists_basic_of_checkEnumType hself hcheck
              exact ⟨owner, d, rfl, hlookup, hbasic⟩
  · cases htype

theorem DistinctNames.declaresType (hdistinct : w.DistinctNames) {t : ObjectName} {owner : Package}
    {d : TypeDecl} (howner : w.packages.get? t.package = some owner)
    (hlookup : owner.lookup t.name = some (.typeName d)) (hbasic : d.isBasic = true) :
    w.DeclaresType t := by
  have hfind : w.find? t.package t.name = some (owner, .typeName d) :=
    find?_eq_some_iff.mpr ⟨howner, hlookup⟩
  have hdeclares := declares_of_find? hfind
  refine ⟨owner, d, hdeclares, nameOf_of_find? hfind, ?_, fun o ho hname => ?_⟩
  · rw [Bool.eq_false_iff]
    intro hbehavioral
    rw [TypeDecl.isBasic_of_isBehavioral hbehavioral] at hbasic
    cases hbasic
  · have hfound := (Package.lookup_eq_some_iff (hdistinct owner hdeclares.1)).mpr ⟨ho, rfl⟩
    have hsame : d.name = t.name := Package.name_of_lookup hlookup
    rw [hname, hsame, hlookup] at hfound
    exact (Option.some.inj hfound).symm

end Workspace

namespace Finished

variable {w : Workspace} {s : Progress} {g : Graph}

/-- A type that its package declares and that something refers to is declared, unless ignored. -/
theorem mem_declared_of_references (h : Finished w s g) {p : Package} {d : TypeDecl}
    (hdeclares : w.Declares p (.typeName d)) (hkept : w.isIgnored p.path d.name = false)
    (hsole : ∀ o ∈ p.objects, o.name = d.name → o = .typeName d) {owner : Package × Object}
    (howner : owner ∈ s.declared) (href : nameOf (p, .typeName d) ∈ w.references owner.1 owner.2) :
    (p, .typeName d) ∈ s.declared := by
  have hsound := h.late.sound
  have hmarked := (hsound.referenced _).mpr ⟨owner, howner, Or.inr href⟩
  rcases hsound.accounted _ (h.late.settled _ hmarked) with ⟨e, he, hname⟩ | hignored | hmissing
  · have hdeclared := (hsound.converted e he).declares
    have hpath : e.1.path = p.path := congrArg ObjectName.package hname
    have hpackage : e.1 = p := by
      have hget := Workspace.get?_path hdeclared.1
      rw [hpath, Workspace.get?_path hdeclares.1] at hget
      exact (Option.some.inj hget).symm
    have hobject : e.2 = .typeName d :=
      hsole e.2 (hpackage ▸ hdeclared.2) (congrArg ObjectName.name hname)
    rw [← hpackage, ← hobject]
    exact he
  · exact absurd (hkept.symm.trans hignored) Bool.false_ne_true
  · have hfound : (w.find? p.path d.name).isSome = true := Workspace.isSome_find? hdeclares
    have hmissing : w.find? p.path d.name = none := hmissing
    rw [hmissing] at hfound
    cases hfound

/-- The declaration under the key of a declared type with a counterpart has the name of that type. -/
theorem name_of_mem_declared (h : Finished w s g) {p : Package} {d : TypeDecl}
    (hd : (p, .typeName d) ∈ s.declared) (hbehavioral : d.isBehavioral = false)
    {node : Declaration} (hnode : g.get? (w.identifier p.path d.name).emitted = some node) :
    node.form.name? = some (w.identifier p.path d.name) := by
  obtain ⟨e, he⟩ := h.late.sound.maps _ hd
  obtain ⟨emitted, hemitted⟩ : ∃ emitted,
      (w.emission (p, .typeName d)).declaration? (w.identifier p.path d.name).emitted =
        some emitted := by
    rw [Workspace.emission_of_ok he]
    cases Workspace.typeEmission_of_declare he with
    | skipped hskipped =>
        rw [hbehavioral] at hskipped
        cases hskipped
    | defined => exact ⟨_, Emission.declaration?_define_eq_some.mpr ⟨rfl, rfl⟩⟩
    | filled => exact ⟨_, Emission.declaration?_fill_eq_some.mpr ⟨rfl, rfl⟩⟩
  rw [h.get?_eq hd hemitted] at hnode
  cases hnode
  rw [name?_withMembers]
  exact (Workspace.name_of_declaration? hemitted).2

/-- The members of an enum were queued for its key. -/
theorem pending_of_enumeration (h : Finished w s g) {key : String} {node : Declaration}
    (hnode : g.get? key = some node) {name : Identifier} {members : List EnumMember}
    (hform : node.form = .enumeration name members) :
    key = name.emitted ∧ members = (s.store.entry key).pending := by
  rcases h.exists_origin hnode with ⟨owner, howner, emitted, hemitted, rfl⟩ | ⟨b, -, rfl⟩
  · obtain ⟨e, he⟩ := h.late.sound.maps _ howner
    obtain ⟨hkey, hname⟩ := Workspace.name_of_declaration? hemitted
    have hsame := name?_withMembers emitted (s.store.entry key).pending
    rw [hform, hname, Form.name?, Option.some.injEq] at hsame
    rw [Workspace.emission_of_ok he] at hemitted
    exact ⟨by rw [hsame, hkey], members_of_withMembers (Workspace.noEnum_of_declare he key _ hemitted) hform⟩
  · cases hform

end Finished

namespace Workspace

variable {w : Workspace}

/-- Every member of an enum comes from a constant whose type is emitted under the name of the enum.
It is the type of the enum if its package declares it, and so it is for every constant that relies on
its package for its type. -/
theorem members_owned {g : Graph} (h : w.convert.1 = .ok g) {key : String} {node : Declaration}
    (hnode : g.get? key = some node) {name : Identifier} {members : List EnumMember}
    (hform : node.form = .enumeration name members) {m : EnumMember} (hm : m ∈ members) :
    ∃ p c t, w.Converted (p, .const c) ∧ m = c.member ∧ c.enumType? = some t ∧
      (w.identifier t.package t.name).emitted = name.emitted ∧
      (w.DeclaresType t → name = w.identifier t.package t.name) ∧
      (w.DistinctNames → c.isSelfContained = false → name = w.identifier t.package t.name) := by
  obtain ⟨s, hs⟩ := exists_finished h
  obtain ⟨hkey, rfl⟩ := hs.pending_of_enumeration hnode hform
  rw [hs.late.sound.built.entry_eq] at hm
  obtain ⟨e, he, hmember⟩ := List.mem_filterMap.mp hm
  obtain ⟨⟨p, o⟩, howner, rfl⟩ := List.mem_map.mp he
  obtain ⟨c, t, rfl, htype, href, -, hkept, hemitted, rfl⟩ := const_of_member? hmember
  have hown : w.DeclaresType t → name = w.identifier t.package t.name := by
    rintro ⟨q, d, hdeclares, rfl, hbehavioral, hsole⟩
    have hd := hs.mem_declared_of_references hdeclares hkept hsole howner href
    have hname := hs.name_of_mem_declared hd hbehavioral (hemitted ▸ hnode)
    rw [hform, Form.name?, Option.some.injEq] at hname
    exact hname
  refine ⟨p, c, t, hs.late.sound.converted _ howner, rfl, htype, hemitted.symm.trans hkey, hown,
    fun hdistinct hself => hown ?_⟩
  obtain ⟨e, he⟩ := hs.late.sound.maps _ howner
  rw [emission_of_ok he] at hmember
  rw [Emission.eq_member_of_member? hmember] at he
  obtain ⟨owner, d, hpackage, hlookup, hbasic⟩ := exists_basic_of_declare htype hself he
  exact hdistinct.declaresType hpackage hlookup hbasic

end Workspace

/-- The name of an enum and those of its members. -/
def Form.enumNames? : Form → Option (Identifier × List String)
  | .enumeration name members => some (name, members.map EnumMember.name)
  | _ => none

theorem Form.eq_enumeration_of_enumNames? {form : Form} {name : Identifier} {names : List String}
    (h : form.enumNames? = some (name, names)) :
    ∃ members, form = .enumeration name members ∧ members.map EnumMember.name = names := by
  cases form with
  | enumeration other members =>
      cases h
      exact ⟨members, rfl, rfl⟩
  | _ => cases h

theorem members_owned_palette : paletteWorkspace.DistinctNames ∧ ∃ g node members,
    paletteWorkspace.convert.1 = .ok g ∧ g.get? "Color" = some node ∧
    node.form = .enumeration (paletteWorkspace.identifier "color" "Color") members ∧
    members.map EnumMember.name = ["Blue", "Red", "Green"] ∧
    ∀ m ∈ members, ∃ p c, paletteWorkspace.Converted (p, .const c) ∧ m = c.member ∧
      c.enumType? = some ⟨"color", "Color"⟩ := by
  have hdistinct := paletteWorkspace_regular.distinct
  have hself : ∀ d ∈ paletteWorkspace.located, d.2.isSelfContained = false := by decide +kernel
  obtain ⟨g, node, hg, hnode, hview⟩ :
      ∃ g node, paletteWorkspace.convert.1 = .ok g ∧ g.get? "Color" = some node ∧
        node.form.enumNames? = some (⟨"Color", some "color", ""⟩, ["Blue", "Red", "Green"]) :=
    Workspace.exists_node_of_view (fun _ node => node.form.enumNames?) (by decide +kernel)
  obtain ⟨members, hform, hnames⟩ := Form.eq_enumeration_of_enumNames? hview
  refine ⟨hdistinct, g, node, members, hg, hnode, hform, hnames, fun m hm => ?_⟩
  obtain ⟨p, c, t, hconverted, hmember, htype, -, -, hown⟩ :=
    Workspace.members_owned hg hnode hform hm
  have hname : paletteWorkspace.identifier "color" "Color" =
      paletteWorkspace.identifier t.package t.name :=
    hown hdistinct (hself _ (Workspace.mem_located_iff.mpr hconverted.declares))
  obtain ⟨hpackage, hobject⟩ := Workspace.identifier_injective hname
  refine ⟨p, c, hconverted, hmember, htype.trans ?_⟩
  rw [hpackage, hobject]

/-- A basic type. -/
def statusPackage : Package where
  path := "a"
  name := "a"
  objects := [.typeName { name := "Status", underlying := .basic .string }]

/-- A constant of a type that is called the same and that its package does not declare. -/
def offPackage : Package where
  path := "b"
  name := "b"
  objects := [.const {
    name := "StatusOff"
    type := .named ⟨some "b", "Status", [], some (.basic .string)⟩
    value := .string "off" }]

def statusWorkspace : Workspace := .ofPackages [statusPackage, offPackage] (by decide)

/-- A basic type gets the member of a namesake, though it has no constants. -/
theorem members_of_namesake : ∃ g node members, statusWorkspace.convert.1 = .ok g ∧
    g.get? "Status" = some node ∧
    node.form = .enumeration (statusWorkspace.identifier "a" "Status") members ∧
    members.map EnumMember.name = ["StatusOff"] ∧
    ∀ p c, statusWorkspace.Declares p (.const c) → c.enumType? ≠ some ⟨"a", "Status"⟩ := by
  have hnone : ∀ d ∈ statusWorkspace.located, d.2.enumType? ≠ some ⟨"a", "Status"⟩ := by
    decide +kernel
  obtain ⟨g, node, hg, hnode, hview⟩ :
      ∃ g node, statusWorkspace.convert.1 = .ok g ∧ g.get? "Status" = some node ∧
        node.form.enumNames? = some (⟨"Status", some "a", ""⟩, ["StatusOff"]) :=
    Workspace.exists_node_of_view (fun _ node => node.form.enumNames?) (by decide +kernel)
  obtain ⟨members, hform, hnames⟩ := Form.eq_enumeration_of_enumNames? hview
  refine ⟨g, node, members, hg, hnode, hform, hnames, fun p c hdeclares => ?_⟩
  exact hnone (p, .const c) (Workspace.mem_located_iff.mpr hdeclares)

end TypeBridge
