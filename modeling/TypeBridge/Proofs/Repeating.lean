import TypeBridge.Proofs.Commuting
import TypeBridge.Proofs.VisitOrder

/-!
Passes that have nothing left to do after their first run. Making members readonly, exporting and the
changes of form find their own marks. A walk that drops null beside maps or repairs references reaches
its normal form in one go, since what a step puts in stood in a child or is left alone by the step.
Repairing does not comment twice, because nothing is missing after it, and listing values meets its
own lists.
-/

namespace TypeBridge

/-! ### Readonly and exported -/

theorem withReadonly_withReadonly (modifiers : List Modifier) :
    withReadonly (withReadonly modifiers) = withReadonly modifiers := by
  rw [withReadonly, if_pos (List.contains_iff_mem.mpr (readonly_mem_withReadonly modifiers))]

/-- A list that is readonly is not shown any more, so it is not made readonly twice. -/
theorem Expr.readOnly_readOnly (e : Expr) : e.readOnly.readOnly = e.readOnly := by
  induction e using Expr.children_induction with
  | inherited e ih =>
      cases e with
      | union arms =>
          simp only [readOnly, readOnlyList_eq_map, List.map_map, union.injEq]
          exact List.map_congr_left ih
      | typeLiteral members =>
          simp only [readOnly, readOnlyMembers_eq_map, List.map_map, typeLiteral.injEq]
          refine List.map_congr_left fun m hm => ?_
          have htype := ih m.type (List.mem_map_of_mem hm)
          simp [Property.readOnly, withReadonly_withReadonly, htype]
      | _ => simp [readOnly]

theorem Form.readOnly_readOnly (form : Form) : form.readOnly.readOnly = form.readOnly := by
  cases form with
  | typeAlias name params type => simp only [readOnly, type.readOnly_readOnly]
  | record name params heritage fields =>
      have hfields := (Expr.typeLiteral fields).readOnly_readOnly
      simp only [Expr.readOnly, Expr.typeLiteral.injEq] at hfields
      simp only [readOnly, hfields]
  | _ => rfl

theorem Declaration.markExported_markExported (d : Declaration) :
    d.markExported.markExported = d.markExported := by
  have hexported : d.markExported.modifiers.contains .exported = true := by
    unfold markExported
    split
    · assumption
    · rfl
  rw [markExported, if_pos hexported]

/-! ### Changes of form -/

theorem Form.enumAsType_enumAsType (form : Form) : form.enumAsType.enumAsType = form.enumAsType := by
  cases form <;> rfl

theorem Form.interfaceToType_interfaceToType (form : Form) :
    form.interfaceToType.interfaceToType = form.interfaceToType := by
  cases form <;> rfl

/-! ### Walks -/

namespace Expr

/-- A step that changes nothing here puts in what was there. -/
theorem inside_of_eq_self {f : Expr → Expr} {e : Expr} (h : f e = e) {t : Expr}
    (ht : t ∈ (f e).subterms) : f t = t ∨ ∃ child ∈ e.children, t ∈ child.subterms := by
  rw [h, subterms_eq, List.mem_append, List.mem_flatMap, List.mem_singleton] at ht
  rcases ht with hinside | rfl
  · exact .inr hinside
  · exact .inl h

/-- The map that is left of a union was one of its arms. -/
theorem notNullMap_walk_twice (e : Expr) :
    (e.mapSubterms notNullMap).mapSubterms notNullMap = e.mapSubterms notNullMap := by
  refine mapSubterms_eq_self (eq_self_of_mem_mapSubterms (fun e t ht => ?_) e)
  rcases e.notNullMap_cases with hself | ⟨harm, -⟩
  · exact inside_of_eq_self hself ht
  · exact .inr ⟨e.notNullMap, mem_children_of_nonNullArm? harm, ht⟩

end Expr

theorem Form.notNullMap_walk_twice (form : Form) :
    (form.mapSubterms Expr.notNullMap).mapSubterms Expr.notNullMap =
      form.mapSubterms Expr.notNullMap := by
  simp only [mapSubterms, mapExprs_mapExprs, Function.comp_def, Expr.notNullMap_walk_twice]

/-! ### References -/

section Repair

variable {known : String → Bool}

namespace Expr

/-- Nothing is missing in an expression where no reference has to be replaced. -/
theorem missing_eq_nil {e : Expr} (h : ∀ t ∈ e.subterms, t.anyIfUnknown known = t) :
    e.missing known = [] := by
  refine List.filterMap_eq_nil_iff.mpr fun t ht => ?_
  have hself := h t ht
  cases t with
  | reference name args =>
      by_cases hname : known name.emitted = true
      · simp [hname]
      · simp [anyIfUnknown, hname] at hself
  | _ => rfl

theorem anyIfUnknown_of_mem_repair (e : Expr) :
    ∀ t ∈ (e.repair known).subterms, t.anyIfUnknown known = t := by
  refine eq_self_of_mem_mapSubterms (fun e t ht => ?_) e
  cases e with
  | reference name args =>
      by_cases hname : known name.emitted = true
      · exact inside_of_eq_self (by simp [anyIfUnknown, hname]) ht
      · have hany : (reference name args).anyIfUnknown known = .keyword .any := by
          simp [anyIfUnknown, hname]
        simp only [hany, subterms, List.mem_singleton] at ht
        exact .inl (ht ▸ rfl)
  | _ => exact inside_of_eq_self rfl ht

@[simp] theorem repair_repair (e : Expr) : (e.repair known).repair known = e.repair known :=
  mapSubterms_eq_self e.anyIfUnknown_of_mem_repair

@[simp] theorem missing_repair (e : Expr) : (e.repair known).missing known = [] :=
  missing_eq_nil e.anyIfUnknown_of_mem_repair

end Expr

@[simp] theorem missingNote_nil : missingNote [] = [] := rfl

namespace TypeParameter

@[simp] theorem repair_repair (p : TypeParameter) : (p.repair known).repair known = p.repair known := by
  simp [repair, mapExprs, Function.comp_def]

@[simp] theorem missing_repair (p : TypeParameter) : (p.repair known).missing known = [] := by
  simp [missing, repair, exprs_mapExprs]

@[simp] theorem name_repair (p : TypeParameter) : (p.repair known).name = p.name := rfl

end TypeParameter

namespace Heritage

@[simp] theorem repair_repair (h : Heritage) : (h.repair known).repair known = h.repair known := by
  simp [repair]

@[simp] theorem missing_repair (h : Heritage) : (h.repair known).missing known = [] := by
  simp [missing, repair]

end Heritage

@[simp] theorem Property.repair_repair (p : Property) :
    (p.repair known).repair known = p.repair known := by
  simp [repair]

namespace EnumMember

@[simp] theorem missing_repair (m : EnumMember) : (m.repair known).missing known = [] := by
  cases hvalue : m.value <;> simp [missing, repair, hvalue]

@[simp] theorem repair_repair (m : EnumMember) : (m.repair known).repair known = m.repair known := by
  have hmissing : (m.repair known).missing known = [] := m.missing_repair
  simp only [repair] at hmissing ⊢
  simp [hmissing, Function.comp_def]

end EnumMember

namespace Form

theorem missing_repair (form : Form) : (form.repair known).missing known = [] := by
  cases form with
  | typeAlias name params type =>
      have hparams : ∀ p ∈ params, (p.mapExprs (Expr.repair known)).missing known = [] :=
        fun p _ => p.missing_repair
      simpa [missing, repair, mapExprs] using hparams
  | record name params heritage fields => simp [missing, repair]
  | enumeration name members => rfl
  | statement kind bindings =>
      have hexprs := exprs_mapExprs (Expr.repair known) (.statement kind bindings)
      simp only [mapExprs] at hexprs
      simp [missing, repair, mapExprs, hexprs]

/-- A clause without parents is dropped at once, and no parent of the others is dropped later. -/
theorem repair_repair (form : Form) : (form.repair known).repair known = form.repair known := by
  have hwalk : ∀ form : Form, (form.mapExprs (Expr.repair known)).mapExprs (Expr.repair known) =
      form.mapExprs (Expr.repair known) := fun form => by
    simp only [mapExprs_mapExprs, Function.comp_def, Expr.repair_repair]
  cases form with
  | typeAlias name params type => exact hwalk (.typeAlias name params type)
  | record name params heritage fields =>
      have hclauses : ∀ clause ∈ (heritage.map (Heritage.repair known)).filter
          fun h => !h.args.isEmpty, clause.repair known = clause := by
        intro clause hclause
        -- what is left after the first run is a repaired clause that has parents
        obtain ⟨clause, -, rfl⟩ := List.mem_map.mp (List.mem_filter.mp hclause).1
        exact clause.repair_repair
      simp [repair, Function.comp_def, List.map_congr_left hclauses]
  | enumeration name members => simp [repair, Function.comp_def]
  | statement kind bindings => exact hwalk (.statement kind bindings)

/-- The type parameters keep their names. -/
theorem typeParams_repair (form : Form) :
    (form.repair known).typeParams = form.typeParams.map (TypeParameter.repair known) := by
  cases form <;> rfl

end Form

end Repair

namespace Declaration

/-- Repairing a declaration makes no name known or unknown to it. -/
theorem isKnown_repair (keys : List String) (d : Declaration) :
    (d.repair keys).isKnown keys = d.isKnown keys := by
  funext name
  simp [isKnown, repair, Form.typeParams_repair, Function.comp_def]

theorem repair_repair (keys : List String) (d : Declaration) :
    (d.repair keys).repair keys = d.repair keys := by
  rw [repair, isKnown_repair]
  simp [repair, Form.repair_repair, Form.missing_repair]

end Declaration

/-! ### Lists of values -/

theorem Declaration.valueList?_of_isStatement {d : Declaration} (h : d.form.isStatement = true) :
    d.valueList? = none := by
  cases hform : d.form with
  | statement kind bindings => rw [valueList?, hform]
  | _ => simp [hform, Form.isStatement] at h

namespace Graph

variable {g : Graph}

/-- Lists whose names are taken are all left out. -/
theorem enumLists_eq_self (h : ∀ list ∈ g.valueLists, g.contains list.1 = true) :
    g.enumLists.result = .ok g := by
  have hends : g.enumLists.Ends (· = g) False := by
    refine enumLists_ends_of (fun _ => (· = g)) rfl ?_
    rintro passed list rest _ hsplit rfl
    have htaken := h list (hsplit ▸ List.mem_append_right _ List.mem_cons_self)
    rw [addValueList, if_pos htaken]
    exact .of_done rfl rfl
  obtain ⟨_, hresult, rfl⟩ := hends.exists_result
  exact hresult

/-- After values are listed, the name of every list is taken. -/
theorem contains_of_mem_valueLists_enumLists {list : String × Declaration}
    (h : list ∈ g.enumLists.state.valueLists) : g.enumLists.state.contains list.1 = true := by
  obtain ⟨d, hd, hlist⟩ := List.mem_filterMap.mp h
  obtain ⟨key, hkey⟩ := Keyed.mem_values_iff.mp hd
  have hget : (g.get? key).or (g.valueLists.lookup key) = some d := g.get?_enumLists key ▸ hkey
  rcases Option.or_eq_some_iff.mp hget with hold | ⟨-, hnew⟩
  · have hmem : list ∈ g.valueLists :=
      List.mem_filterMap.mpr ⟨d, Keyed.mem_values_iff.mpr ⟨key, hold⟩, hlist⟩
    have hfound : (g.valueLists.lookup list.1).isSome = true :=
      List.lookup_isSome_iff.mpr ⟨list, hmem, beq_self_eq_true list.1⟩
    refine (Keyed.contains_iff_isSome _ _).mpr ?_
    show (g.enumLists.state.get? list.1).isSome = true
    rw [get?_enumLists, Option.isSome_or, hfound, Bool.or_true]
  · obtain ⟨source, -, hsource⟩ := List.mem_filterMap.mp (Keyed.mem_of_lookup_eq_some hnew)
    have hstatement := (Declaration.statement_of_valueList? hsource).1
    rw [Declaration.valueList?_of_isStatement hstatement] at hlist
    cases hlist

end Graph

/-! ### Passes -/

namespace Pass

variable {pass : Pass}

/-- A pass that changes nothing in what it has made. -/
def Repeatable (pass : Pass) : Prop :=
  ∀ g : Graph, (pass.run (pass.run g).state).state = (pass.run g).state

theorem ChangesBy.repeatable {f : Declaration → Declaration} (h : pass.ChangesBy f)
    (hf : ∀ d, f (f d) = f d) : pass.Repeatable := by
  intro g
  show (pass.run (pass.run g).state).state = (pass.run g).state
  rw [h g, h]
  simp only [Outcome.done, Graph.mapNodes_mapNodes, hf]

theorem ChangesBy.repeatable_mapForm {f : Form → Form} (h : pass.ChangesBy (Declaration.mapForm f))
    (hf : ∀ form, f (f form) = f form) : pass.Repeatable :=
  h.repeatable fun d => by simp only [Declaration.mapForm, hf]

/-- Repairing keeps the keys, so the second run knows the same names. -/
theorem repeatable_missingReferencesToAny : missingReferencesToAny.Repeatable := by
  intro g
  simp only [run, Graph.missingReferencesToAny, Graph.keys_mapNodes, Graph.mapNodes_mapNodes,
    Declaration.repair_repair]

theorem repeatable_enumLists : enumLists.Repeatable := fun _ =>
  (Outcome.result_eq_ok_iff.mp (Graph.enumLists_eq_self
    fun _ => Graph.contains_of_mem_valueLists_enumLists)).2

/-- The passes that may be repeated. -/
def repeatable : List Pass :=
  [readOnly, notNullMaps, missingReferencesToAny, enumLists, enumAsTypes, interfaceToType, exportTypes]

theorem repeatable_of_mem (h : pass ∈ repeatable) : pass.Repeatable := by
  simp only [repeatable, List.mem_cons, List.not_mem_nil, or_false] at h
  rcases h with rfl | rfl | rfl | rfl | rfl | rfl | rfl
  · exact changesBy_readOnly.repeatable_mapForm Form.readOnly_readOnly
  · exact changesBy_notNullMaps.repeatable_mapForm Form.notNullMap_walk_twice
  · exact repeatable_missingReferencesToAny
  · exact repeatable_enumLists
  · exact changesBy_enumAsTypes.repeatable_mapForm Form.enumAsType_enumAsType
  · exact changesBy_interfaceToType.repeatable_mapForm Form.interfaceToType_interfaceToType
  · exact changesBy_exportTypes.repeatable Declaration.markExported_markExported

/-- Running a pass on what it has made, any number of times, leaves the graph as it is. -/
theorem repeating_changes_nothing (h : pass ∈ repeatable) (g : Graph) :
    ∃ g', (g.apply pass.change).result = .ok g' ∧ (g'.apply pass.change).result = .ok g' ∧
      ∀ n, (g.applyAll (List.replicate (n + 1) pass.change)).result = .ok g' := by
  have hfirst := result_apply pass g
  have hsecond := result_apply pass (pass.run g).state
  rw [repeatable_of_mem h g] at hsecond
  generalize (pass.run g).state = g' at hfirst hsecond
  refine ⟨g', hfirst, hsecond, fun n => ?_⟩
  have hmore : (g'.applyAll (List.replicate n pass.change)).result = .ok g' := by
    induction n with
    | zero => rfl
    | succ n ih => exact Outcome.result_andThen_iff.mpr ⟨g', hsecond, ih⟩
  exact Outcome.result_andThen_iff.mpr ⟨g', hfirst, hmore⟩

end Pass

/-- A page with a parent and a field that nothing declares. -/
def pageGraph : Graph where
  nodes := .ofList [("Page", page)]
where
  page : Declaration :=
    { form := .record ⟨"Page", some "m", ""⟩ []
        [⟨.extending, [.reference ⟨"Sheet", some "m", ""⟩ []]⟩]
        [⟨"Next", [], false, .reference ⟨"Lost", some "m", ""⟩ [], []⟩] }

/-- The comments of a declaration and of the fields of a record. -/
def Declaration.allComments (d : Declaration) : List (List Comment) :=
  match d.form with
  | .record _ _ _ fields => d.comments :: fields.map PropertyOf.comments
  | _ => [d.comments]

/-- Two comments after the first run, and no others after the second. -/
theorem repeating_changes_nothing_page : ∃ g' d,
    (pageGraph.apply Pass.missingReferencesToAny.change).result = .ok g' ∧
    (g'.apply Pass.missingReferencesToAny.change).result = .ok g' ∧
    g'.get? "Page" = some d ∧
    d.allComments = [[missingComment ["Sheet"]], [missingComment ["Lost"]]] := by
  have hmem : Pass.missingReferencesToAny ∈ Pass.repeatable := by decide
  obtain ⟨g', hfirst, hsecond, -⟩ := Pass.repeating_changes_nothing hmem pageGraph
  cases hfirst
  refine ⟨_, pageGraph.page.repair pageGraph.keys, rfl, hsecond, ?_, by decide⟩
  exact Graph.get?_mapNodes pageGraph (fun _ d => d.repair pageGraph.keys) "Page"

end TypeBridge
