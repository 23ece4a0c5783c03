import TypeBridge.Proofs.Ownership

/-!
Names of enum members. A member has the bare name of its constant, and constants of one type may stand
in several packages. Every object is declared once, so the members that one package attaches to an
enum have distinct names; constants of two packages that share a name repeat it in the enum.
-/

namespace TypeBridge

namespace Workspace

variable {w : Workspace}

/-- A declared constant whose type is included, not ignored and emitted under a key. -/
def Attaches (w : Workspace) (key : String) (p : Package) (c : ConstDecl) : Prop :=
  (p, .const c) ∈ w.build.state.declared ∧ ∃ t, c.enumType? = some t ∧
    (w.packages.get? t.package).isSome = true ∧ w.isIgnored t.package t.name = false ∧
    (w.identifier t.package t.name).emitted = key

/-- Objects that do not both emit a member of one name for a key. -/
def MembersApart (w : Workspace) (key : String) (d d' : Package × Object) : Prop :=
  ∀ m, (w.emission d).member? key = some m →
    ∀ m', (w.emission d').member? key = some m' → m.name ≠ m'.name

instance (key : String) : Std.Symm (w.MembersApart key) :=
  ⟨fun _ _ hapart m hm m' hm' => (hapart m' hm' m hm).symm⟩

/-- A constant of an included type becomes a member, if it becomes anything. -/
theorem member?_of_enumType {p : Package} {c : ConstDecl} {e : Emission}
    (h : (w.declare p (.const c)).result = .ok e) {t : ObjectName} (htype : c.enumType? = some t)
    (hincluded : (w.packages.get? t.package).isSome = true)
    (hkept : w.isIgnored t.package t.name = false) :
    e.member? (w.identifier t.package t.name).emitted = some c.member := by
  cases constEmission_of_declare h with
  | skipped hskipped =>
      rcases hskipped t htype with hmissing | hignored
      · rw [hmissing] at hincluded
        cases hincluded
      · rw [hkept] at hignored
        cases hignored
  | member htype' =>
      cases htype.symm.trans htype'
      exact Emission.member?_member_eq_some.mpr ⟨rfl, rfl⟩
  | constant htype' => cases htype.symm.trans htype'

end Workspace

namespace Finished

variable {w : Workspace} {s : Progress} {g : Graph} {key : String}

theorem member?_of_attaches (h : Finished w s g) {p : Package} {c : ConstDecl}
    (hattaches : w.Attaches key p c) :
    (p, .const c) ∈ s.declared ∧ (w.emission (p, .const c)).member? key = some c.member := by
  obtain ⟨hdeclared, t, htype, hincluded, hkept, rfl⟩ := hattaches
  rw [h.declared] at hdeclared
  obtain ⟨e, he⟩ := h.late.sound.maps _ hdeclared
  rw [Workspace.emission_of_ok he]
  exact ⟨hdeclared, Workspace.member?_of_enumType he htype hincluded hkept⟩

theorem attaches_of_member? (h : Finished w s g) {d : Package × Object} (hd : d ∈ s.declared)
    {m : EnumMember} (hm : (w.emission d).member? key = some m) :
    ∃ c, d = (d.1, .const c) ∧ m = c.member ∧ w.Attaches key d.1 c := by
  obtain ⟨p, o⟩ := d
  obtain ⟨c, t, rfl, htype, -, hincluded, hkept, hkey, rfl⟩ := Workspace.const_of_member? hm
  exact ⟨c, rfl, rfl, h.declared ▸ hd, t, htype, hincluded, hkept, hkey.symm⟩

/-- The members for a key have distinct names if no two declared objects emit members for it that
share one. -/
theorem nodup_pending_iff (h : Finished w s g) :
    ((s.store.entry key).pending.map EnumMember.name).Nodup ↔
      ∀ d ∈ s.declared, ∀ d' ∈ s.declared, d ≠ d' → w.MembersApart key d d' := by
  have hpairwise : ((s.store.entry key).pending.map EnumMember.name).Nodup ↔
      s.declared.Pairwise (w.MembersApart key) := by
    rw [h.late.sound.built.entry_eq, List.filterMap_map, List.Nodup, List.pairwise_map,
      List.pairwise_filterMap]
    rfl
  rw [hpairwise]
  constructor
  · intro hall d hd d' hd' hne
    exact hall.forall hd hd' hne
  · intro hall
    exact (List.Nodup.of_map _ h.late.sound.nodup).pairwise_of_forall_ne hall

end Finished

namespace Workspace

variable {w : Workspace}

/-- The members of an enum have distinct names exactly if no two packages attach constants of one
name to it. -/
theorem memberNames_distinct_iff {g : Graph} (h : w.convert.1 = .ok g) {key : String}
    {node : Declaration} (hnode : g.get? key = some node) {name : Identifier}
    {members : List EnumMember} (hform : node.form = .enumeration name members) :
    (members.map EnumMember.name).Nodup ↔
      ∀ p c p' c', w.Attaches key p c → w.Attaches key p' c' → c.name = c'.name → p = p' := by
  obtain ⟨s, hs⟩ := exists_finished h
  obtain ⟨-, rfl⟩ := hs.pending_of_enumeration hnode hform
  rw [hs.nodup_pending_iff]
  constructor
  · intro hall p c p' c' hc hc' hname
    obtain ⟨hdeclared, hm⟩ := hs.member?_of_attaches hc
    obtain ⟨hdeclared', hm'⟩ := hs.member?_of_attaches hc'
    by_contra hne
    have hobjects : (p, Object.const c) ≠ (p', .const c') := fun heq => hne (congrArg Prod.fst heq)
    exact hall _ hdeclared _ hdeclared' hobjects _ hm _ hm' hname
  · intro hall d hd d' hd' hne m hm m' hm' hname
    obtain ⟨c, hconst, rfl, hc⟩ := hs.attaches_of_member? hd hm
    obtain ⟨c', hconst', rfl, hc'⟩ := hs.attaches_of_member? hd' hm'
    -- a package declares each name once
    refine hne (List.inj_on_of_nodup_map hs.late.sound.nodup hd hd' ?_)
    rw [hconst, hconst', hall _ c _ c' hc hc' hname, nameOf, nameOf, Object.name, Object.name]
    exact congrArg _ hname

end Workspace

theorem memberNames_distinct_palette : ∃ g node members,
    paletteWorkspace.convert.1 = .ok g ∧ g.get? "Color" = some node ∧
    node.form = .enumeration (paletteWorkspace.identifier "color" "Color") members ∧
    members.map EnumMember.name = ["Blue", "Red", "Green"] ∧
    ∀ p c p' c', paletteWorkspace.Attaches "Color" p c → paletteWorkspace.Attaches "Color" p' c' →
      c.name = c'.name → p = p' := by
  obtain ⟨g, node, hg, hnode, hview⟩ :
      ∃ g node, paletteWorkspace.convert.1 = .ok g ∧ g.get? "Color" = some node ∧
        node.form.enumNames? = some (⟨"Color", some "color", ""⟩, ["Blue", "Red", "Green"]) :=
    Workspace.exists_node_of_view (fun _ node => node.form.enumNames?) (by decide +kernel)
  obtain ⟨members, hform, hnames⟩ := Form.eq_enumeration_of_enumNames? hview
  have hnodup : (members.map EnumMember.name).Nodup := by
    rw [hnames]
    decide
  exact ⟨g, node, members, hg, hnode, hform, hnames,
    (Workspace.memberNames_distinct_iff hg hnode hform).mp hnodup⟩

/-- A basic type with a constant. -/
def switchPackage : Package where
  path := "a"
  name := "a"
  objects := [
    .typeName { name := "Status", underlying := .basic .string },
    .const { name := "Off", type := .named ⟨some "a", "Status", [], none⟩, value := .string "off" }]

/-- A constant of the same name and type, with another value. -/
def overruledPackage : Package where
  path := "b"
  name := "b"
  objects := [.const {
    name := "Off", type := .named ⟨some "a", "Status", [], none⟩, value := .string "disabled" }]

def switchWorkspace : Workspace := .ofPackages [switchPackage, overruledPackage] (by decide)

/-- Two packages with distinct names each make an enum that declares one member twice. -/
theorem memberNames_repeated : switchWorkspace.DistinctNames ∧ ∃ g node members,
    switchWorkspace.convert.1 = .ok g ∧ g.get? "Status" = some node ∧
    node.form = .enumeration (switchWorkspace.identifier "a" "Status") members ∧
    members.map EnumMember.name = ["Off", "Off"] ∧ ¬ (members.map EnumMember.name).Nodup := by
  have hdistinct : switchWorkspace.DistinctNames := by
    unfold Workspace.DistinctNames
    decide +kernel
  obtain ⟨g, node, hg, hnode, hview⟩ :
      ∃ g node, switchWorkspace.convert.1 = .ok g ∧ g.get? "Status" = some node ∧
        node.form.enumNames? = some (⟨"Status", some "a", ""⟩, ["Off", "Off"]) :=
    Workspace.exists_node_of_view (fun _ node => node.form.enumNames?) (by decide +kernel)
  obtain ⟨members, hform, hnames⟩ := Form.eq_enumeration_of_enumNames? hview
  refine ⟨hdistinct, g, node, members, hg, hnode, hform, hnames, ?_⟩
  rw [hnames]
  decide

end TypeBridge
