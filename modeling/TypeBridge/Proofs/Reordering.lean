import TypeBridge.Proofs.Agreement
import TypeBridge.Proofs.Enums

/-!
The order of the input does not matter. When packages come in another order, and the objects inside
them too, the same objects are converted, each to the same declaration. What is left to the order is
the order of the members of an enum; where that is the same, so is every declaration of the finished
graph, and with it the rendered text, since keys are sorted before they are rendered.
-/

namespace TypeBridge

/-- A package with its objects in another order. -/
structure Package.Reordered (p p' : Package) : Prop where
  path : p'.path = p.path
  name : p'.name = p.name
  mode : p'.mode = p.mode
  namePrefix : p'.namePrefix = p.namePrefix
  comments : p'.comments = p.comments
  objects : p.objects.Perm p'.objects

/-- A workspace with its packages in another order, and their objects as well. -/
structure Workspace.Reordered (w w' : Workspace) : Prop where
  packages : ∀ path, Option.Rel Package.Reordered (w.packages.get? path) (w'.packages.get? path)
  overrides : ∀ key, w'.overrides.get? key = w.overrides.get? key
  excluded : ∀ name, name ∈ w'.excluded ↔ name ∈ w.excluded

/-! ### Graphs with the same declarations -/

namespace Graph

variable {g g' : Graph}

theorem mem_keys_congr (h : ∀ key, g'.get? key = g.get? key) (key : String) :
    key ∈ g'.keys ↔ key ∈ g.keys := by
  have hget : g'.nodes.get? key = g.nodes.get? key := h key
  rw [keys, keys, Keyed.mem_keys_iff, Keyed.mem_keys_iff, hget]

theorem pairwise_sortKeys (keys : List String) : (sortKeys keys).Pairwise (· ≤ ·) := by
  have hsorted : (sortKeys keys).Pairwise fun a b => decide (a ≤ b) = true := by
    refine List.pairwise_mergeSort (fun a b c hab hbc => ?_) (fun a b => ?_) keys
    · exact decide_eq_true (String.le_trans (of_decide_eq_true hab) (of_decide_eq_true hbc))
    · rw [Bool.or_eq_true, decide_eq_true_iff, decide_eq_true_iff]
      exact String.le_total a b
  exact hsorted.imp of_decide_eq_true

theorem sortKeys_perm (keys : List String) : (sortKeys keys).Perm keys := List.mergeSort_perm _ _

/-- Sorted keys do not show the order in which they were created. -/
theorem sortKeys_congr {keys keys' : List String} (h : keys'.Perm keys) :
    sortKeys keys' = sortKeys keys := by
  refine List.Perm.eq_of_pairwise (fun a b _ _ hab hba => String.le_antisymm hab hba)
    (pairwise_sortKeys keys') (pairwise_sortKeys keys) ?_
  exact ((sortKeys_perm keys').trans h).trans (sortKeys_perm keys).symm

theorem renderKeys_congr (h : ∀ key, g'.get? key = g.get? key) (printer : Printer)
    (keys : List String) : g'.renderKeys printer keys = g.renderKeys printer keys := by
  induction keys with
  | nil => rfl
  | cons key rest ih => rw [renderKeys, renderKeys, h, ih]

/-- Graphs with the same declarations render alike. -/
theorem render_congr (h : ∀ key, g'.get? key = g.get? key) (hserialized : g'.serialized = g.serialized)
    (printer : Printer) (order : List String → List String) :
    (g'.render printer order).1 = (g.render printer order).1 := by
  have hkeys : g'.keys.Perm g.keys :=
    (List.perm_ext_iff_of_nodup g'.nodes.nodup g.nodes.nodup).mpr (mem_keys_congr h)
  unfold render
  rw [hserialized, sortKeys_congr hkeys, renderKeys_congr h]
  split <;> rfl

end Graph

/-! ### Packages and workspaces -/

namespace Package

variable {p p' : Package}

namespace Reordered

theorem symm (h : p.Reordered p') : p'.Reordered p where
  path := h.path.symm
  name := h.name.symm
  mode := h.mode.symm
  namePrefix := h.namePrefix.symm
  comments := h.comments.symm
  objects := h.objects.symm

theorem nodup (h : p.Reordered p') (hnodup : (p.objects.map Object.name).Nodup) :
    (p'.objects.map Object.name).Nodup :=
  (h.objects.map Object.name).nodup_iff.mp hnodup

theorem agrees (h : p.Reordered p') (hnodup : (p.objects.map Object.name).Nodup) :
    p.Agrees p' where
  path := h.path
  name := h.name
  mode := h.mode
  namePrefix := h.namePrefix
  comments := h.comments
  lookup name := by
    refine Option.ext fun o => ?_
    rw [lookup_eq_some_iff (h.nodup hnodup), lookup_eq_some_iff hnodup, h.objects.mem_iff]

end Reordered

end Package

namespace Workspace

namespace Reordered

variable {w w' : Workspace}

theorem symm (h : w.Reordered w') : w'.Reordered w where
  packages path := by
    rcases none_or_some_of_rel (h.packages path) with ⟨hp, hp'⟩ | ⟨p, p', hp, hp', hreordered⟩
    · rw [hp, hp']
      exact .none
    · rw [hp, hp']
      exact .some hreordered.symm
  overrides key := (h.overrides key).symm
  excluded name := (h.excluded name).symm

/-- Every package has its counterpart. -/
theorem exists_package (h : w.Reordered w') {p : Package} (hp : p ∈ w.packages.values) :
    ∃ p' ∈ w'.packages.values, p.Reordered p' := by
  have hget := get?_path hp
  rcases none_or_some_of_rel (h.packages p.path) with ⟨hnone, -⟩ | ⟨q, p', hq, hp', hreordered⟩
  · rw [hget] at hnone
    cases hnone
  · rw [hget] at hq
    cases hq
    exact ⟨p', Keyed.mem_values_iff.mpr ⟨p.path, hp'⟩, hreordered⟩

theorem distinctNames (h : w.Reordered w') (hdistinct : w.DistinctNames) : w'.DistinctNames := by
  intro p' hp'
  obtain ⟨p, hp, hreordered⟩ := h.symm.exists_package hp'
  exact hreordered.symm.nodup (hdistinct p hp)

theorem agrees (h : w.Reordered w') (hdistinct : w.DistinctNames) : Agrees w w' where
  packages path := by
    rcases none_or_some_of_rel (h.packages path) with ⟨hp, hp'⟩ | ⟨p, p', hp, hp', hreordered⟩
    · rw [hp, hp']
      exact .none
    · rw [hp, hp']
      exact .some (hreordered.agrees (hdistinct p (Keyed.mem_values_iff.mpr ⟨path, hp⟩)))
  overrides := h.overrides
  excluded name := by
    rw [Bool.eq_iff_iff, List.contains_iff_mem, List.contains_iff_mem, h.excluded]

end Reordered

/-! ### Counterparts -/

/-- The same object in a package of the other workspace that answers alike. -/
structure Counterpart (w' : Workspace) (d d' : Package × Object) : Prop where
  agrees : d.1.Agrees d'.1
  object : d'.2 = d.2
  declares : w'.Declares d'.1 d'.2

namespace Counterpart

variable {w w' : Workspace} {d d' : Package × Object}

theorem nameOf_eq (h : Counterpart w' d d') : nameOf d' = nameOf d := by
  rw [nameOf, nameOf, h.agrees.path, h.object]

variable (hagrees : Agrees w w')

include hagrees

theorem isIgnored_eq (h : Counterpart w' d d') :
    w'.isIgnored d'.1.path d'.2.name = w.isIgnored d.1.path d.2.name := by
  rw [hagrees.isIgnored, h.agrees.path, h.object]

theorem declare_eq (h : Counterpart w' d d') : w'.declare d'.1 d'.2 = w.declare d.1 d.2 := by
  rw [h.object, hagrees.declare_eq h.agrees]

theorem references_eq (h : Counterpart w' d d') :
    w'.references d'.1 d'.2 = w.references d.1 d.2 := by
  rw [h.object, hagrees.references_eq h.agrees]

theorem emission_eq (h : Counterpart w' d d') : w'.emission d' = w.emission d := by
  rw [emission, emission, h.declare_eq hagrees]

end Counterpart

namespace Reordered

variable {w w' : Workspace}

theorem exists_counterpart (h : w.Reordered w') (hdistinct : w.DistinctNames)
    {d : Package × Object} (hd : w.Declares d.1 d.2) : ∃ d', Counterpart w' d d' := by
  obtain ⟨p', hp', hreordered⟩ := h.exists_package hd.1
  exact ⟨(p', d.2), hreordered.agrees (hdistinct d.1 hd.1), rfl, hp',
    hreordered.objects.mem_iff.mp hd.2⟩

/-- The same objects are to be converted. -/
theorem converted (h : w.Reordered w') (hdistinct : w.DistinctNames) {d : Package × Object}
    (hd : w.Converted d) : ∃ d', Counterpart w' d d' ∧ w'.Converted d' := by
  have hagrees := h.agrees hdistinct
  obtain ⟨d', hd'⟩ := h.exists_counterpart hdistinct hd.declares
  refine ⟨d', hd', ?_⟩
  have hkept : w'.isIgnored d'.1.path d'.2.name = false :=
    (hd'.isIgnored_eq hagrees).trans hd.kept
  induction hd generalizing d' with
  | generated _ _ hmode =>
      exact .generated hd'.declares hkept (hd'.agrees.mode.trans hmode)
  | referenced _ _ howner href ih =>
      obtain ⟨owner', howner'⟩ := h.exists_counterpart hdistinct howner.declares
      have hconverted := ih owner' howner' ((howner'.isIgnored_eq hagrees).trans howner.kept)
      refine .referenced hd'.declares hkept hconverted ?_
      rw [hd'.nameOf_eq, howner'.references_eq hagrees]
      exact href
  | @ofMarkedType p c t owner _ _ hmode htype howner href ih =>
      obtain ⟨owner', howner'⟩ := h.exists_counterpart hdistinct howner.declares
      have hconverted := ih owner' howner' ((howner'.isIgnored_eq hagrees).trans howner.kept)
      obtain ⟨p', o'⟩ := d'
      obtain rfl : o' = .const c := hd'.object
      refine .ofMarkedType hd'.declares hkept (hd'.agrees.mode.trans hmode) htype hconverted ?_
      rw [howner'.references_eq hagrees]
      exact href
  | @ofConvertedType p c type _ _ hmode htype hconverted ih =>
      obtain ⟨type', htype'⟩ := h.exists_counterpart hdistinct hconverted.declares
      have hconverted' := ih type' htype' ((htype'.isIgnored_eq hagrees).trans hconverted.kept)
      obtain ⟨p', o'⟩ := d'
      obtain rfl : o' = .const c := hd'.object
      refine .ofConvertedType hd'.declares hkept (hd'.agrees.mode.trans hmode) ?_ hconverted'
      rw [htype'.nameOf_eq]
      exact htype

theorem allMap (h : w.Reordered w') (hdistinct : w.DistinctNames) (hmaps : w.AllMap) :
    w'.AllMap := by
  intro d' hd'
  have hdistinct' := h.distinctNames hdistinct
  obtain ⟨d, hcounterpart, hd⟩ := h.symm.converted hdistinct' hd'
  rw [← hcounterpart.declare_eq (h.symm.agrees hdistinct')]
  exact hmaps d hd

theorem keysDistinct (h : w.Reordered w') (hdistinct : w.DistinctNames)
    (hkeys : w.KeysDistinct) : w'.KeysDistinct := by
  intro d' e' key node node' hd' he' hnode hnode'
  have hdistinct' := h.distinctNames hdistinct
  have hagrees := h.symm.agrees hdistinct'
  obtain ⟨d, hcounterpart, hd⟩ := h.symm.converted hdistinct' hd'
  obtain ⟨e, hcounterpart', he⟩ := h.symm.converted hdistinct' he'
  rw [← hcounterpart.emission_eq hagrees] at hnode
  rw [← hcounterpart'.emission_eq hagrees] at hnode'
  have hsame : d = e := hkeys d e key node node' hd he hnode hnode'
  refine hdistinct'.eq_of_nameOf hd'.declares he'.declares ?_
  rw [← hcounterpart.nameOf_eq, ← hcounterpart'.nameOf_eq, hsame]

theorem requires (h : w.Reordered w') (hdistinct : w.DistinctNames) {b : Builtin}
    (hb : w.Requires b) : w'.Requires b := by
  obtain ⟨d, hd, hrequire⟩ := hb
  obtain ⟨d', hcounterpart, hd'⟩ := h.converted hdistinct hd
  refine ⟨d', hd', ?_⟩
  rw [hcounterpart.declare_eq (h.agrees hdistinct)]
  exact hrequire

theorem isConstant_eq (h : w.Reordered w') (hdistinct : w.DistinctNames) (x : ObjectName) :
    w'.isConstant x = w.isConstant x := by
  unfold isConstant
  rcases none_or_some_of_rel ((h.agrees hdistinct).find?_rel x.package x.name) with
    ⟨hd, hd'⟩ | ⟨⟨p, o⟩, ⟨p', o'⟩, hd, hd', -, rfl⟩
  · rw [hd, hd']
  · rw [hd, hd']
    cases o' <;> rfl

theorem mem_types (h : w.Reordered w') (hdistinct : w.DistinctNames) {t : SourceType}
    (ht : t ∈ w.types) : t ∈ w'.types := by
  rcases List.mem_append.mp ht with ht | ht
  · obtain ⟨p, hp, ht⟩ := List.mem_flatMap.mp ht
    obtain ⟨o, ho, ht⟩ := List.mem_flatMap.mp ht
    obtain ⟨d', hd'⟩ := h.exists_counterpart (d := (p, o)) hdistinct ⟨hp, ho⟩
    refine mem_types_of_declares hd'.declares ?_
    rw [hd'.object]
    exact ht
  · obtain ⟨o, ho, ht⟩ := List.mem_flatMap.mp ht
    obtain ⟨key, hkey⟩ := Keyed.mem_values_iff.mp ho
    rw [← h.overrides key] at hkey
    exact List.mem_append_right _ (List.mem_flatMap.mpr
      ⟨o, Keyed.mem_values_iff.mpr ⟨key, hkey⟩, ht⟩)

theorem regular (h : w.Reordered w') (hregular : w.Regular) : w'.Regular where
  distinct := h.distinctNames hregular.distinct
  typed := by
    intro p' c t hdeclares htype hincluded
    have hdistinct' := h.distinctNames hregular.distinct
    obtain ⟨⟨p, o⟩, hd⟩ := h.symm.exists_counterpart hdistinct' (d := (p', .const c)) hdeclares
    obtain rfl : o = .const c := hd.object
    have hincluded' : (w.packages.get? t.package).isSome = true := by
      rcases none_or_some_of_rel (h.packages t.package) with ⟨-, hq'⟩ | ⟨q, q', hq, -, -⟩
      · rw [hq'] at hincluded
        cases hincluded
      · rw [hq]
        rfl
    obtain ⟨q, d, hdeclares', hname, hbasic⟩ := hregular.typed p c t hd.declares htype hincluded'
    obtain ⟨⟨q', o'⟩, hd'⟩ := h.exists_counterpart hregular.distinct (d := (q, .typeName d)) hdeclares'
    obtain rfl : o' = .typeName d := hd'.object
    exact ⟨q', d, hd'.declares, hd'.nameOf_eq.trans hname, hbasic⟩
  names := by
    intro t ht x hx
    have hdistinct' := h.distinctNames hregular.distinct
    rw [h.isConstant_eq hregular.distinct]
    exact hregular.names t (h.symm.mem_types hdistinct' ht) x hx

end Reordered

/-! ### Finished graphs -/

/-- An object of one order, with its members, is in the graph of the other. -/
theorem Reordered.get?_eq {w w' : Workspace} (h : w.Reordered w') (hregular : w.Regular)
    (horder : ∀ d, w.Converted d → w'.constantsOf (nameOf d) = w.constantsOf (nameOf d))
    {g g' : Graph} (hg : w.convert.1 = .ok g) (hg' : w'.convert.1 = .ok g') (key : String) :
    g'.get? key = g.get? key := by
  have hagrees := h.agrees hregular.distinct
  have hregular' := h.regular hregular
  have hmaps := hregular.allMap_of_convert hg
  have hkeys := hregular.keysDistinct_of_convert hg
  have hmaps' := hregular'.allMap_of_convert hg'
  have hkeys' := hregular'.keysDistinct_of_convert hg'
  by_cases hdeclared : ∃ d, w.Converted d ∧ ∃ node, (w.emission d).declaration? key = some node
  · obtain ⟨d, hd, node, hnode⟩ := hdeclared
    obtain ⟨d', hcounterpart, hd'⟩ := h.converted hregular.distinct hd
    have hnode' : (w'.emission d').declaration? key = some node := by
      rw [hcounterpart.emission_eq hagrees, hnode]
    rw [hregular.get?_convert hmaps hkeys hg hd hnode,
      hregular'.get?_convert hmaps' hkeys' hg' hd' hnode', hcounterpart.nameOf_eq, horder d hd]
  · have hfree : ∀ d, w.Converted d → ∀ node, (w.emission d).declaration? key ≠ some node :=
      fun d hd node hnode => hdeclared ⟨d, hd, node, hnode⟩
    have hfree' : ∀ d', w'.Converted d' → ∀ node, (w'.emission d').declaration? key ≠ some node := by
      intro d' hd'
      obtain ⟨d, hcounterpart, hd⟩ := h.symm.converted hregular'.distinct hd'
      rw [← hcounterpart.emission_eq (h.symm.agrees hregular'.distinct)]
      exact hfree d hd
    refine Option.ext fun node => ?_
    rw [hregular.get?_convert_builtin hg hfree, hregular'.get?_convert_builtin hg' hfree']
    exact exists_congr fun b => and_congr_left fun _ =>
      ⟨h.symm.requires hregular'.distinct, h.requires hregular.distinct⟩

/-- Converting a regular workspace and converting it in another order both succeed or both fail. The
graphs have the same keys and the same declarations, as long as the constants of each type keep their
order, and render to the same text. -/
theorem convert_reordered {w w' : Workspace} (h : w.Reordered w') (hregular : w.Regular)
    (horder : ∀ d, w.Converted d → w'.constantsOf (nameOf d) = w.constantsOf (nameOf d)) :
    ((∃ g, w.convert.1 = .ok g) ↔ ∃ g', w'.convert.1 = .ok g') ∧
    ∀ g g', w.convert.1 = .ok g → w'.convert.1 = .ok g' →
      (∀ key, key ∈ g'.keys ↔ key ∈ g.keys) ∧ (∀ key, g'.get? key = g.get? key) ∧
      ∀ printer order, (g'.render printer order).1 = (g.render printer order).1 := by
  have hregular' := h.regular hregular
  refine ⟨⟨?_, ?_⟩, fun g g' hg hg' => ?_⟩
  · rintro ⟨g, hg⟩
    exact hregular'.exists_convert
      (h.allMap hregular.distinct (hregular.allMap_of_convert hg))
      (h.keysDistinct hregular.distinct (hregular.keysDistinct_of_convert hg))
  · rintro ⟨g', hg'⟩
    exact hregular.exists_convert
      (h.symm.allMap hregular'.distinct (hregular'.allMap_of_convert hg'))
      (h.symm.keysDistinct hregular'.distinct (hregular'.keysDistinct_of_convert hg'))
  · have hget := h.get?_eq hregular horder hg hg'
    obtain ⟨s, hs⟩ := exists_finished hg
    obtain ⟨s', hs'⟩ := exists_finished hg'
    exact ⟨Graph.mem_keys_congr hget, hget,
      Graph.render_congr hget (hs'.serialized.trans hs.serialized.symm)⟩

end Workspace

/-- A package with its first two objects swapped. -/
def Package.swapped (p : Package) : Package :=
  match p.objects with
  | first :: second :: rest => { p with objects := second :: first :: rest }
  | _ => p

/-- The reference package first, and both packages with their first two objects swapped. -/
def swappedWorkspace : Workspace := .ofPackages [color.swapped, palette.swapped] (by decide)

theorem convert_reordered_palette : ∃ g g', paletteWorkspace.convert.1 = .ok g ∧
    swappedWorkspace.convert.1 = .ok g' ∧ g.keys = ["Palette", "Color"] ∧
    g'.keys = ["Color", "Palette"] ∧ (∀ key, g'.get? key = g.get? key) ∧
    ∀ printer order, (g'.render printer order).1 = (g.render printer order).1 := by
  have hreordered : paletteWorkspace.Reordered swappedWorkspace := by
    refine ⟨fun path => ?_, fun _ => rfl, fun _ => Iff.rfl⟩
    by_cases hpalette : path = "palette"
    · subst hpalette
      exact .some ⟨rfl, rfl, rfl, rfl, rfl, List.Perm.swap _ _ _⟩
    · by_cases hcolor : path = "color"
      · subst hcolor
        exact .some ⟨rfl, rfl, rfl, rfl, rfl, List.Perm.swap _ _ _⟩
      · have hnone : paletteWorkspace.packages.get? path = none := by
          refine Keyed.get?_eq_none_of_notMem ?_
          change path ∉ ["palette", "color"]
          simp [hpalette, hcolor]
        have hnone' : swappedWorkspace.packages.get? path = none := by
          refine Keyed.get?_eq_none_of_notMem ?_
          change path ∉ ["color", "palette"]
          simp [hpalette, hcolor]
        rw [hnone, hnone']
        exact .none
  have horder : ∀ d, paletteWorkspace.Converted d →
      swappedWorkspace.constantsOf (nameOf d) = paletteWorkspace.constantsOf (nameOf d) := by
    intro d hd
    have hname : nameOf d ∈ [⟨"palette", "Palette"⟩, ⟨"palette", "Blue"⟩, ⟨"color", "Red"⟩,
        ⟨"color", "Limit"⟩, ⟨"color", "Shade"⟩, ⟨"color", "Color"⟩, ⟨"color", "Green"⟩] :=
      List.mem_map_of_mem (Workspace.mem_located_iff.mpr hd.declares)
    simp only [List.mem_cons, List.not_mem_nil, or_false] at hname
    rcases hname with h | h | h | h | h | h | h <;> rw [h] <;> rfl
  have hconvert := Workspace.convert_reordered hreordered paletteWorkspace_regular horder
  obtain ⟨g, hg⟩ := paletteWorkspace_regular.exists_convert paletteWorkspace_allMap
    paletteWorkspace_keysDistinct
  obtain ⟨g', hg'⟩ := hconvert.1.mp ⟨g, hg⟩
  have hkeys : paletteWorkspace.convert.1.toOption.map Graph.keys = some ["Palette", "Color"] := by
    decide +kernel
  have hkeys' : swappedWorkspace.convert.1.toOption.map Graph.keys = some ["Color", "Palette"] := by
    decide +kernel
  rw [hg] at hkeys
  rw [hg'] at hkeys'
  obtain ⟨-, hget, hrender⟩ := hconvert.2 g g' hg hg'
  exact ⟨g, g', hg, hg', Option.some.inj hkeys, Option.some.inj hkeys', hget, hrender⟩

end TypeBridge
