import TypeBridge.Proofs.Conversion

/-!
The objects that a conversion declares are exactly those that are to be converted, each of them once.
Whatever order the packages and their objects come in, no object is reached too late: types and
values are fetched when they are announced, and when the reference packages have their turn, every
type whose constants may be wanted is marked. The one exception is a constant that is given as the
type of another: whether that other is declared depends on which of them comes first.
-/

namespace TypeBridge

namespace Late

variable {w : Workspace} {s : Progress}

theorem mem_of_isGenerated (hdistinct : w.DistinctNames) (h : Late w w.inOrder s)
    {d : Package × Object} (hdeclares : w.Declares d.1 d.2)
    (hkept : w.isIgnored d.1.path d.2.name = false)
    (hknown : s.marks.isGenerated (nameOf d) = true) : d ∈ s.declared := by
  rcases h.sound.accounted _ hknown with ⟨e, he, hname⟩ | hignored | hmissing
  · rw [← hdistinct.eq_of_nameOf (h.sound.converted e he).declares hdeclares hname]
    exact he
  · rw [nameOf, hkept] at hignored
    cases hignored
  · have hfound := Workspace.isSome_find? hdeclares
    rw [nameOf] at hmissing
    rw [hmissing] at hfound
    cases hfound

/-- A constant of a reference package follows its type. -/
theorem mem_of_isReferenced (hdistinct : w.DistinctNames) (hapart : w.NoConstantAsType)
    (h : Late w w.inOrder s) {p : Package} {c : ConstDecl} {t : ObjectName}
    (hdeclares : w.Declares p (.const c)) (hkept : w.isIgnored p.path c.name = false)
    (hmode : p.mode = .reference) (htype : c.enumType? = some t)
    (hmarked : s.marks.isReferenced t = true) : (p, .const c) ∈ s.declared := by
  have hturn : (p, Object.const c) ∈ w.inOrder := Workspace.mem_inOrder_iff.mpr hdeclares
  exact mem_of_isGenerated hdistinct h hdeclares hkept
    (h.followed hapart p c t hturn hdeclares hmode hkept htype hmarked)

theorem mem_declared_iff (hdistinct : w.DistinctNames) (hapart : w.NoConstantAsType)
    (h : Late w w.inOrder s) (d : Package × Object) : d ∈ s.declared ↔ w.Converted d := by
  refine ⟨h.sound.converted d, fun hconverted => ?_⟩
  induction hconverted with
  | @generated d hdeclares hkept hmode =>
      have hturn : d ∈ w.inOrder := Workspace.mem_inOrder_iff.mpr hdeclares
      exact mem_of_isGenerated hdistinct h hdeclares hkept (h.taken d hturn hmode hkept)
  | referenced hdeclares hkept _ href ih =>
      have hmarked := (h.sound.referenced _).mpr ⟨_, ih, Or.inr href⟩
      exact mem_of_isGenerated hdistinct h hdeclares hkept (h.settled _ hmarked)
  | ofMarkedType hdeclares hkept hmode htype _ href ih =>
      have hmarked := (h.sound.referenced _).mpr ⟨_, ih, Or.inr href⟩
      exact mem_of_isReferenced hdistinct hapart h hdeclares hkept hmode htype hmarked
  | ofConvertedType hdeclares hkept hmode htype _ ih =>
      have hmarked := (h.sound.referenced _).mpr ⟨_, ih, Or.inl rfl⟩
      exact mem_of_isReferenced hdistinct hapart h hdeclares hkept hmode htype hmarked

end Late

namespace Workspace

/-- A conversion that succeeds has declared exactly the objects that are to be converted, and none of
them twice. -/
theorem declared_exactly_converted {w : Workspace} (hdistinct : w.DistinctNames)
    (hapart : w.NoConstantAsType) {g : Graph} (h : w.convert.1 = .ok g) :
    (w.build.state.declared.map nameOf).Nodup ∧
      ∀ d, d ∈ w.build.state.declared ↔ w.Converted d := by
  obtain ⟨s, hs⟩ := exists_finished h
  rw [hs.declared]
  exact ⟨hs.late.sound.nodup, hs.late.mem_declared_iff hdistinct hapart⟩

/-- All objects of generated packages are declared, unless they are ignored. -/
theorem mem_declared_of_generate {w : Workspace} (hdistinct : w.DistinctNames) {g : Graph}
    (h : w.convert.1 = .ok g) {d : Package × Object} (hdeclares : w.Declares d.1 d.2)
    (hkept : w.isIgnored d.1.path d.2.name = false) (hmode : d.1.mode = .generate) :
    d ∈ w.build.state.declared := by
  obtain ⟨s, hs⟩ := exists_finished h
  rw [hs.declared]
  have hturn : d ∈ w.inOrder := mem_inOrder_iff.mpr hdeclares
  exact hs.late.mem_of_isGenerated hdistinct hdeclares hkept (hs.late.taken d hturn hmode hkept)

end Workspace

/-- A list of colors of another package, and one more color. -/
def palette : Package where
  path := "palette"
  name := "palette"
  objects := [
    .typeName {
      name := "Palette", underlying := .slice (.named ⟨some "color", "Color", [], none⟩) },
    .const {
      name := "Blue", type := .named ⟨some "color", "Color", [], none⟩, value := .string "blue"
      doc := [{ text := "// The sky." }] }]

/-- A basic type between two of its constants, and two objects that nobody asks for. -/
def color : Package where
  path := "color"
  name := "color"
  mode := .reference
  objects := [
    .const {
      name := "Red", type := .named ⟨some "color", "Color", [], none⟩, value := .string "red"
      doc := [{ text := "/* Wine */", trailing := true }] },
    .const { name := "Limit", type := .basic .int, value := .int 7 },
    .typeName { name := "Shade", underlying := .basic .string },
    .typeName { name := "Color", underlying := .basic .string },
    .const {
      name := "Green", type := .named ⟨some "color", "Color", [], none⟩, value := .string "green" }]

def paletteWorkspace : Workspace := .ofPackages [palette, color] (by decide)

theorem declared_exactly_converted_palette :
    paletteWorkspace.build.state.declared.map nameOf =
      [⟨"palette", "Palette"⟩, ⟨"palette", "Blue"⟩, ⟨"color", "Color"⟩, ⟨"color", "Red"⟩,
        ⟨"color", "Green"⟩] ∧
    ∀ d, d ∈ paletteWorkspace.build.state.declared ↔ paletteWorkspace.Converted d := by
  refine ⟨by decide +kernel, ?_⟩
  have hok : paletteWorkspace.convert.1.toOption.isSome = true := by decide +kernel
  cases hresult : paletteWorkspace.convert.1 with
  | error e =>
      rw [hresult] at hok
      cases hok
  | ok g =>
      refine (Workspace.declared_exactly_converted ?_ ?_ hresult).2
      · unfold Workspace.DistinctNames
        decide +kernel
      · intro d d' hd hd' _ _
        have hall : ∀ d ∈ paletteWorkspace.located, ∀ d' ∈ paletteWorkspace.located,
            d'.2.isConst = true → d.2.enumType? ≠ some (nameOf d') := by decide +kernel
        exact hall d (Workspace.mem_located_iff.mpr hd) d' (Workspace.mem_located_iff.mpr hd')

/-! ### Constants whose type is not announced -/

/-- The objects that announcements alone lead to. A constant of a reference package is among them
only if its type is announced; that the type is declared does not count. -/
inductive Workspace.Announced (w : Workspace) : Package × Object → Prop
  | generated {d : Package × Object} (hdeclares : w.Declares d.1 d.2)
      (hkept : w.isIgnored d.1.path d.2.name = false) (hmode : d.1.mode = .generate) :
      Announced w d
  | referenced {d owner : Package × Object} (hdeclares : w.Declares d.1 d.2)
      (hkept : w.isIgnored d.1.path d.2.name = false) (howner : Announced w owner)
      (href : nameOf d ∈ w.references owner.1 owner.2) : Announced w d
  | ofMarkedType {p : Package} {c : ConstDecl} {t : ObjectName} {owner : Package × Object}
      (hdeclares : w.Declares p (.const c)) (hkept : w.isIgnored p.path c.name = false)
      (hmode : p.mode = .reference) (htype : c.enumType? = some t) (howner : Announced w owner)
      (href : t ∈ w.references owner.1 owner.2) : Announced w (p, .const c)

/-- Two basic types that nothing refers to. -/
def hue : Package where
  path := "hue"
  name := "hue"
  objects := [
    .typeName { name := "Color", underlying := .basic .string },
    .typeName { name := "Tone", underlying := .basic .string }]

/-- A constant of a type that is declared and not announced, after a constant that has the first one
for its type. -/
def tone : Package where
  path := "tone"
  name := "tone"
  mode := .reference
  objects := [
    .const {
      name := "Low", type := .named ⟨some "tone", "Tone", [], some (.basic .string)⟩
      value := .string "low" },
    .const { name := "Tone", type := .named ⟨some "hue", "Color", [], none⟩, value := .string "tone" }]

def toneWorkspace : Workspace := .ofPackages [hue, tone] (by decide)

/-- Announcements alone are too narrow: one constant is declared because its type is. To follow
declared types as well is too wide when a constant is given as a type: another constant comes before
it, and is passed over. -/
theorem declared_not_announced : toneWorkspace.DistinctNames ∧
    toneWorkspace.convert.1.toOption.isSome = true ∧
    (∃ d ∈ toneWorkspace.build.state.declared, ¬ toneWorkspace.Announced d) ∧
    ∃ d, toneWorkspace.Converted d ∧ d ∉ toneWorkspace.build.state.declared := by
  have hnames : toneWorkspace.build.state.declared.map nameOf =
      [⟨"hue", "Color"⟩, ⟨"hue", "Tone"⟩, ⟨"tone", "Tone"⟩] := by decide +kernel
  refine ⟨by unfold Workspace.DistinctNames; decide +kernel, by decide +kernel, ?_, ?_⟩
  · obtain ⟨d, hd, hname⟩ : ∃ d ∈ toneWorkspace.build.state.declared,
        nameOf d = ⟨"tone", "Tone"⟩ := by
      refine List.mem_map.mp ?_
      rw [hnames]
      decide
    refine ⟨d, hd, fun hannounced => ?_⟩
    -- the types of the generated package announce nothing
    have hsilent : ∀ d ∈ toneWorkspace.located, d.1.path = "hue" →
        toneWorkspace.references d.1 d.2 = [] := by decide +kernel
    have hhue : ∀ d, toneWorkspace.Announced d → toneWorkspace.Declares d.1 d.2 ∧ d.1.path = "hue" := by
      intro d h
      induction h with
      | generated hdeclares hkept hmode =>
          refine ⟨hdeclares, ?_⟩
          rcases List.mem_cons.mp hdeclares.1 with hp | hp
          · rw [hp]
            rfl
          · rw [List.mem_singleton.mp hp] at hmode
            cases hmode
      | referenced _ _ _ href ih =>
          rw [hsilent _ (Workspace.mem_located_iff.mpr ih.1) ih.2] at href
          cases href
      | ofMarkedType _ _ _ _ _ href ih =>
          rw [hsilent _ (Workspace.mem_located_iff.mpr ih.1) ih.2] at href
          cases href
    have hpath : d.1.path = "tone" := congrArg ObjectName.package hname
    rw [(hhue d hannounced).2] at hpath
    exact absurd hpath (by decide)
  · have hcolor : toneWorkspace.Converted (hue, .typeName {
        name := "Color", underlying := .basic .string }) :=
      .generated ⟨List.mem_cons_self, List.mem_cons_self⟩ (by decide +kernel) rfl
    have htone : toneWorkspace.Converted (tone, .const {
        name := "Tone", type := .named ⟨some "hue", "Color", [], none⟩, value := .string "tone" }) :=
      .ofConvertedType ⟨List.mem_cons_of_mem _ List.mem_cons_self,
        List.mem_cons_of_mem _ List.mem_cons_self⟩ (by decide +kernel) rfl rfl hcolor
    refine ⟨(tone, _), .ofConvertedType ⟨List.mem_cons_of_mem _ List.mem_cons_self,
      List.mem_cons_self⟩ (by decide +kernel) rfl rfl htone, fun hmem => ?_⟩
    have hname := List.mem_map_of_mem hmem (f := nameOf)
    rw [hnames] at hname
    exact absurd hname (by decide)

end TypeBridge
