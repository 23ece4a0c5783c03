import TypeBridge.Proofs.Pass
import TypeBridge.Proofs.Reachable

/-!
Keys and names. Every declaration of a converted graph stands under the name that it declares, and it
does so after any passes: a pass keeps the keys in their order, and the name, the source and the
comments of what stands under them, and the one pass that adds declarations adds variable statements
after the others, under their names. So no pass fails, and no name is declared twice.
-/

namespace TypeBridge

/-! ### What a pass keeps of a declaration -/

namespace Form

def isStatement : Form → Bool
  | .statement _ _ => true
  | _ => false

/-- A form that a pass may make of another. -/
structure Kept (form form' : Form) : Prop where
  name : form'.name? = form.name?
  statement : form.isStatement = true → form'.isStatement = true

theorem Kept.refl (form : Form) : form.Kept form := ⟨rfl, id⟩

theorem Kept.trans {form form' form'' : Form} (h : form.Kept form') (h' : form'.Kept form'') :
    form.Kept form'' :=
  ⟨h'.name.trans h.name, h'.statement ∘ h.statement⟩

theorem kept_readOnly (form : Form) : form.Kept form.readOnly := by
  cases form <;> exact ⟨rfl, id⟩

theorem kept_enumAsType (form : Form) : form.Kept form.enumAsType := by
  cases form <;> exact ⟨rfl, id⟩

theorem kept_trimMembers (form : Form) : form.Kept form.trimMembers := by
  cases form <;> exact ⟨rfl, id⟩

theorem kept_interfaceToType (form : Form) : form.Kept form.interfaceToType := by
  cases form <;> exact ⟨rfl, id⟩

theorem kept_simplifyFields (form : Form) : form.Kept form.simplifyFields := by
  cases form <;> exact ⟨rfl, id⟩

theorem kept_mapExprs (f : Expr → Expr) (form : Form) : form.Kept (form.mapExprs f) := by
  cases form with
  | statement kind bindings =>
      refine ⟨?_, id⟩
      simp only [name?, mapExprs, List.head?_map, Option.map_map]
      rfl
  | _ => exact ⟨rfl, id⟩

theorem kept_repair (known : String → Bool) (form : Form) : form.Kept (form.repair known) := by
  cases form with
  | statement kind bindings => exact kept_mapExprs _ (.statement kind bindings)
  | _ => exact ⟨rfl, id⟩

end Form

namespace Declaration

/-- The name that a declaration is emitted under. -/
def emittedName? (d : Declaration) : Option String := d.form.name?.map Identifier.emitted

/-- A declaration that a pass may make of another: of its name and source, with its comments and
possibly others after them. -/
structure Kept (d d' : Declaration) : Prop where
  form : d.form.Kept d'.form
  source : d'.source = d.source
  comments : d.comments <+: d'.comments

theorem Kept.refl (d : Declaration) : d.Kept d := ⟨.refl _, rfl, List.prefix_rfl⟩

theorem Kept.trans {d d' d'' : Declaration} (h : d.Kept d') (h' : d'.Kept d'') : d.Kept d'' :=
  ⟨h.form.trans h'.form, h'.source.trans h.source, h.comments.trans h'.comments⟩

theorem Kept.emittedName? {d d' : Declaration} (h : d.Kept d') : d'.emittedName? = d.emittedName? :=
  congrArg (Option.map Identifier.emitted) h.form.name

theorem kept_mapForm {f : Form → Form} (h : ∀ form : Form, form.Kept (f form)) (d : Declaration) :
    d.Kept (d.mapForm f) :=
  ⟨h d.form, rfl, List.prefix_rfl⟩

theorem kept_markExported (d : Declaration) : d.Kept d.markExported := by
  unfold markExported
  split
  · exact .refl d
  · exact ⟨.refl _, rfl, List.prefix_rfl⟩

theorem kept_repair (keys : List String) (d : Declaration) : d.Kept (d.repair keys) :=
  ⟨Form.kept_repair _ d.form, rfl, List.prefix_append _ _⟩

/-- A list of values is a statement, and has its own name as its key. -/
theorem statement_of_valueList? {d : Declaration} {list : String × Declaration}
    (h : d.valueList? = some list) :
    list.2.form.isStatement = true ∧ list.2.emittedName? = some list.1 := by
  unfold valueList? at h
  split at h
  · split at h
    · cases h
      exact ⟨rfl, rfl⟩
    · cases h
  · cases h

end Declaration

/-! ### What a pass keeps of a graph -/

namespace Graph

/-- Every declaration stands under the name that it is emitted under. -/
def WellKeyed (g : Graph) : Prop := ∀ key d, g.get? key = some d → d.emittedName? = some key

/-- A graph with all declarations of another in their places, and after them variable statements
under the added keys. -/
structure Grown (g : Graph) (added : List String) (g' : Graph) : Prop where
  keys : g'.keys = g.keys ++ added
  kept : ∀ key d, g.get? key = some d → ∃ d', g'.get? key = some d' ∧ d.Kept d'
  fresh : ∀ key ∈ added, ∃ d, g'.get? key = some d ∧ d.form.isStatement = true ∧
    d.emittedName? = some key

variable {g g' g'' : Graph}

theorem mem_keys_of_get? {key : String} {d : Declaration} (h : g.get? key = some d) :
    key ∈ g.keys :=
  Keyed.mem_keys_iff.mpr ⟨d, h⟩

namespace Grown

theorem refl (g : Graph) : g.Grown [] g where
  keys := (List.append_nil _).symm
  kept _ d hd := ⟨d, hd, .refl d⟩
  fresh _ h := nomatch h

theorem trans {added added' : List String} (h : g.Grown added g') (h' : g'.Grown added' g'') :
    g.Grown (added ++ added') g'' where
  keys := by rw [h'.keys, h.keys, List.append_assoc]
  kept key d hd := by
    obtain ⟨d', hd', hkept⟩ := h.kept key d hd
    obtain ⟨d'', hd'', hkept'⟩ := h'.kept key d' hd'
    exact ⟨d'', hd'', hkept.trans hkept'⟩
  fresh key hkey := by
    rcases List.mem_append.mp hkey with hkey | hkey
    · obtain ⟨d', hd', hstatement, hname⟩ := h.fresh key hkey
      obtain ⟨d'', hd'', hkept⟩ := h'.kept key d' hd'
      exact ⟨d'', hd'', hkept.form.statement hstatement, hkept.emittedName?.trans hname⟩
    · exact h'.fresh key hkey

/-- What is there after a pass was there before, or was added under its name. -/
theorem wellKeyed {added : List String} (h : g.Grown added g') (hg : g.WellKeyed) :
    g'.WellKeyed := by
  intro key d hd
  have hkey : key ∈ g.keys ++ added := h.keys ▸ mem_keys_of_get? hd
  rcases List.mem_append.mp hkey with hold | hnew
  · obtain ⟨d₀, hd₀⟩ := Keyed.mem_keys_iff.mp hold
    obtain ⟨d', hd', hkept⟩ := h.kept key d₀ hd₀
    cases hd.symm.trans hd'
    exact hkept.emittedName?.trans (hg key d₀ hd₀)
  · obtain ⟨d', hd', -, hname⟩ := h.fresh key hnew
    cases hd.symm.trans hd'
    exact hname

end Grown

theorem grown_mapNodes {f : String → Declaration → Declaration}
    (h : ∀ (key : String) (d : Declaration), d.Kept (f key d)) : g.Grown [] (g.mapNodes f) where
  keys := by rw [keys_mapNodes, List.append_nil]
  kept key d hd := ⟨f key d, by rw [get?_mapNodes, hd, Option.map_some], h key d⟩
  fresh _ h := nomatch h

theorem grown_replace {key : String} {d : Declaration} (hnew : g.contains key = false)
    (hstatement : d.form.isStatement = true) (hname : d.emittedName? = some key) :
    g.Grown [key] (g.replace key d) := by
  have hnotMem : key ∉ g.keys := fun h => by
    rw [contains, (g.nodes.contains_iff key).mpr h] at hnew
    cases hnew
  constructor
  · exact (Keyed.keys_insert g.nodes key d).trans (if_neg hnotMem)
  · intro other d₀ hd₀
    have hne : other ≠ key := fun h => hnotMem (h ▸ mem_keys_of_get? hd₀)
    exact ⟨d₀, (Keyed.get?_insert_of_ne g.nodes d hne).trans hd₀, .refl d₀⟩
  · intro other hother
    cases List.mem_singleton.mp hother
    exact ⟨d, Keyed.get?_insert_self g.nodes key d, hstatement, hname⟩

/-- A graph grown by passes. Only one pass adds declarations. -/
def GrownBy (passes : List Pass) (g g' : Graph) : Prop :=
  ∃ added, g.Grown added g' ∧ (Pass.enumLists ∉ passes → added = [])

theorem Grown.grownBy (h : g.Grown [] g') (passes : List Pass) : g.GrownBy passes g' :=
  ⟨[], h, fun _ => rfl⟩

theorem Grown.grownBy_enumLists {added : List String} (h : g.Grown added g') :
    g.GrownBy [.enumLists] g' :=
  ⟨added, h, fun hout => absurd List.mem_cons_self hout⟩

theorem GrownBy.trans {passes passes' : List Pass} (h : g.GrownBy passes g')
    (h' : g'.GrownBy passes' g'') : g.GrownBy (passes ++ passes') g'' := by
  obtain ⟨added, hgrown, hnone⟩ := h
  obtain ⟨added', hgrown', hnone'⟩ := h'
  refine ⟨added ++ added', hgrown.trans hgrown', fun hout => ?_⟩
  rw [List.mem_append, not_or] at hout
  rw [hnone hout.1, hnone' hout.2, List.append_nil]

/-- What holds of a graph after each list of values that is added or left out holds at the end. -/
theorem enumLists_ends_of (Inv : List (String × Declaration) → Graph → Prop) (hstart : Inv [] g)
    (hstep : ∀ passed list rest g', g.valueLists = passed ++ list :: rest → Inv passed g' →
      (addValueList list g').Ends (Inv (passed ++ [list])) False) :
    g.enumLists.Ends (Inv g.valueLists) False := by
  have hcount : ∀ events, (⟨g, events, none⟩ : Outcome Graph).Ends (g = ·) False := fun _ =>
    .of_done rfl rfl
  refine (hcount _).andThen ?_
  rintro _ rfl
  exact Outcome.Ends.forEach Inv hstart hstep

/-- Adding lists of values never stops: a list whose name is taken is left out. -/
theorem enumLists_ends (g : Graph) : g.enumLists.Ends (g.GrownBy [.enumLists]) False := by
  have hlists : ∀ list ∈ g.valueLists,
      list.2.form.isStatement = true ∧ list.2.emittedName? = some list.1 := by
    intro list hlist
    obtain ⟨d, -, hd⟩ := List.mem_filterMap.mp hlist
    exact Declaration.statement_of_valueList? hd
  refine enumLists_ends_of (fun _ => g.GrownBy [.enumLists]) ((Grown.refl g).grownBy _) ?_
  rintro passed list rest g' hsplit ⟨added, hg', -⟩
  obtain ⟨hstatement, hname⟩ := hlists list (hsplit ▸ List.mem_append_right _ List.mem_cons_self)
  unfold addValueList
  cases hcontains : g'.contains list.1 with
  | true => exact .of_done rfl hg'.grownBy_enumLists
  | false =>
      have hlonger := hg'.trans (grown_replace hcontains hstatement hname)
      simp only [define, hcontains, Bool.false_eq_true, if_false]
      exact .done hlonger.grownBy_enumLists

end Graph

/-! ### Passes -/

namespace Pass

theorem ChangesBy.ends {pass : Pass} {f : Declaration → Declaration} (h : pass.ChangesBy f)
    (hkept : ∀ d : Declaration, d.Kept (f d)) (g : Graph) :
    (pass.run g).Ends (g.GrownBy [pass]) False := by
  rw [h g]
  exact .done ((Graph.grown_mapNodes fun _ d => hkept d).grownBy [pass])

/-- What one pass keeps. -/
theorem run_ends (pass : Pass) (g : Graph) : (pass.run g).Ends (g.GrownBy [pass]) False := by
  have hwalk : ∀ (f : Expr → Expr) (form : Form), form.Kept (form.mapSubterms f) := fun f form =>
    Form.kept_mapExprs (Expr.mapSubterms f) form
  cases pass with
  | exportTypes => exact changesBy_exportTypes.ends Declaration.kept_markExported g
  | readOnly => exact changesBy_readOnly.ends (Declaration.kept_mapForm Form.kept_readOnly) g
  | enumAsTypes => exact changesBy_enumAsTypes.ends (Declaration.kept_mapForm Form.kept_enumAsType) g
  | trimEnumPrefix =>
      exact changesBy_trimEnumPrefix.ends (Declaration.kept_mapForm Form.kept_trimMembers) g
  | enumLists => exact g.enumLists_ends
  | simplifyOptional =>
      exact changesBy_simplifyOptional.ends (Declaration.kept_mapForm fun form =>
        form.kept_simplifyFields.trans (hwalk _ _)) g
  | notNullMaps => exact changesBy_notNullMaps.ends (Declaration.kept_mapForm (hwalk _)) g
  | nullUnionSlices => exact changesBy_nullUnionSlices.ends (Declaration.kept_mapForm (hwalk _)) g
  | interfaceToType =>
      exact changesBy_interfaceToType.ends (Declaration.kept_mapForm Form.kept_interfaceToType) g
  | missingReferencesToAny =>
      exact .of_done rfl ((Graph.grown_mapNodes fun _ d => d.kept_repair g.keys).grownBy _)

theorem apply_ends (pass : Pass) (g : Graph) :
    (g.apply pass.change).Ends (g.GrownBy [pass]) False :=
  (pass.run_ends g).mapError

/-- What any passes keep, one after another. -/
theorem applyAll_ends (passes : List Pass) (g : Graph) :
    (g.applyAll (passes.map change)).Ends (g.GrownBy passes) False := by
  induction passes generalizing g with
  | nil => exact .done ((Graph.Grown.refl g).grownBy [])
  | cons pass rest ih =>
      exact (pass.apply_ends g).andThen fun g' hg' => (ih g').mono fun _ hg'' => hg'.trans hg''

theorem result_apply (pass : Pass) (g : Graph) :
    (g.apply pass.change).result = .ok (pass.run g).state := by
  obtain ⟨g', hresult, -⟩ := (pass.apply_ends g).exists_result
  rwa [← (Outcome.result_eq_ok_iff.mp hresult).2] at hresult

theorem result_applyAll (passes : List Pass) (g : Graph) :
    (g.applyAll (passes.map change)).result = .ok (g.applyAll (passes.map change)).state := by
  obtain ⟨g', hresult, -⟩ := (applyAll_ends passes g).exists_result
  rwa [← (Outcome.result_eq_ok_iff.mp hresult).2] at hresult

end Pass

/-! ### Converted graphs -/

theorem Graph.WellKeyed.key_unique {g : Graph} (h : g.WellKeyed) {key key' : String}
    {d d' : Declaration} (hd : g.get? key = some d) (hd' : g.get? key' = some d')
    (hname : d.emittedName? = d'.emittedName?) : key = key' := by
  rw [h key d hd, h key' d' hd'] at hname
  exact Option.some.inj hname

namespace Workspace

variable {w : Workspace} {g : Graph}

theorem wellKeyed_of_convert (h : w.convert.1 = .ok g) : g.WellKeyed := by
  obtain ⟨s, hs⟩ := exists_finished h
  intro key d hd
  rcases hs.exists_origin hd with ⟨owner, -, node, hnode, rfl⟩ | ⟨b, rfl, rfl⟩
  · obtain ⟨rfl, hname⟩ := name_of_declaration? hnode
    rw [Declaration.emittedName?, name?_withMembers, hname, Option.map_some]
  · exact congrArg some String.empty_append

/-- A converted graph is well keyed, no passes fail on it, and what they make of it is well keyed as
well, so that no name is declared twice. All declarations stay in their places with their names,
sources and comments, and each pass but one adds none. -/
theorem names_kept_by_passes (h : w.convert.1 = .ok g) (passes : List Pass) :
    g.WellKeyed ∧ ∃ g', (g.applyAll (passes.map Pass.change)).result = .ok g' ∧
      g.GrownBy passes g' ∧ g'.WellKeyed ∧
      (∀ key key' d d', g'.get? key = some d → g'.get? key' = some d' →
        d.emittedName? = d'.emittedName? → key = key') ∧
      ∀ before pass after, passes = before ++ pass :: after →
        ∃ g₁ g₂, (g.applyAll (before.map Pass.change)).result = .ok g₁ ∧
          (g₁.apply pass.change).result = .ok g₂ ∧ g₁.GrownBy [pass] g₂ := by
  have hconverted := wellKeyed_of_convert h
  obtain ⟨g', hresult, hgrown⟩ := (Pass.applyAll_ends passes g).exists_result
  have hkeyed : g'.WellKeyed := by
    obtain ⟨added, hadded, -⟩ := hgrown
    exact hadded.wellKeyed hconverted
  refine ⟨hconverted, g', hresult, hgrown, hkeyed, fun _ _ _ _ => hkeyed.key_unique, ?_⟩
  intro before pass after _
  obtain ⟨g₁, hbefore, -⟩ := (Pass.applyAll_ends before g).exists_result
  obtain ⟨g₂, hpass, hstep⟩ := (pass.apply_ends g₁).exists_result
  exact ⟨g₁, g₂, hbefore, hpass, hstep⟩

end Workspace

/-- Passes that write enums as unions and list their values, the second time in vain. -/
def listingPasses : List Pass := [.enumAsTypes, .enumLists, .exportTypes, .enumLists]

theorem names_kept_by_passes_palette : ∃ g g', paletteWorkspace.convert.1 = .ok g ∧
    (g.applyAll (listingPasses.map Pass.change)).result = .ok g' ∧
    g.keys = ["Palette", "Color"] ∧ g'.keys = ["Palette", "Color", "Colors"] ∧ g'.WellKeyed := by
  obtain ⟨g, -, hg, -, hview⟩ : ∃ g node, paletteWorkspace.convert.1 = .ok g ∧
      g.get? "Color" = some node ∧
      (g.keys, (g.applyAll (listingPasses.map Pass.change)).state.keys) =
        (["Palette", "Color"], ["Palette", "Color", "Colors"]) :=
    Workspace.exists_node_of_view
      (fun g _ => (g.keys, (g.applyAll (listingPasses.map Pass.change)).state.keys))
      (by decide +kernel)
  obtain ⟨hkeys, hkeys'⟩ := Prod.mk.inj hview
  obtain ⟨-, g', hresult, -, hkeyed, -⟩ := Workspace.names_kept_by_passes hg listingPasses
  rw [(Outcome.result_eq_ok_iff.mp hresult).2] at hkeys'
  exact ⟨g, g', hg, hresult, hkeys, hkeys', hkeyed⟩

end TypeBridge
