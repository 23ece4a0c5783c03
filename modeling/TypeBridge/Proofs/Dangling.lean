import TypeBridge.Proofs.EmptyUnions
import TypeBridge.Proofs.Repeating

/-!
References to names that nothing declares, after they were repaired. Where a reference stands in a
type of its own, in a field, a type parameter, a value or a binding, it is looked for at every depth
and none is left. A parent is kept or dropped by its own name, and its arguments are not looked at:
what dangles in the arguments of a parent that is kept dangles afterwards, and nothing else does.
-/

namespace TypeBridge

namespace Declaration

/-- What a declaration may refer to: the declarations of its graph, the globals, and its own type
parameters. -/
def MayName (keys : List String) (d : Declaration) (name : String) : Prop :=
  name ∈ keys ∨ name ∈ typeScriptGlobals ∨ ∃ p ∈ d.form.typeParams, p.name.emitted = name

/-- A reference of a declaration to what it may not refer to. -/
def Dangles (keys : List String) (d : Declaration) (t : Expr) : Prop :=
  t ∈ d.subterms ∧ ∃ name args, t = .reference name args ∧ ¬d.MayName keys name.emitted

theorem isKnown_iff {keys : List String} {d : Declaration} {name : String} :
    d.isKnown keys name = true ↔ d.MayName keys name := by
  simp [isKnown, MayName, or_assoc]

end Declaration

section Repair

variable {known : String → Bool}

namespace Expr

theorem mem_subterms_self (e : Expr) : e ∈ e.subterms := by
  rw [subterms_eq]
  exact List.mem_append_right _ (List.mem_singleton_self e)

theorem resolves_eq_false_iff {t : Expr} : t.resolves known = false ↔
    ∃ name args, t = .reference name args ∧ known name.emitted = false := by
  cases t <;> simp [resolves]

/-- At every depth of a repaired expression, references are to known names. -/
theorem resolves_of_mem_repair {e t : Expr} (h : t ∈ (e.repair known).subterms) :
    t.resolves known = true := by
  have hself := e.anyIfUnknown_of_mem_repair t h
  rw [← Bool.not_eq_false, resolves_eq_false_iff]
  rintro ⟨name, args, rfl, hunknown⟩
  simp [anyIfUnknown, hunknown] at hself

end Expr

theorem Form.mem_exprs_repair_of_parent {form : Form} {parent : Expr} (h : parent ∈ form.parents)
    (hkept : parent.resolves known = true) : parent ∈ (form.repair known).exprs := by
  cases form with
  | record name params heritage fields =>
      obtain ⟨clause, hclause, hparent⟩ := List.mem_flatMap.mp h
      have hmem : parent ∈ (clause.repair known).args := List.mem_filter.mpr ⟨hparent, hkept⟩
      have hnonempty : (!(clause.repair known).args.isEmpty) = true := by
        rw [Bool.not_eq_true', List.isEmpty_eq_false_iff]
        exact List.ne_nil_of_mem hmem
      refine List.mem_append_left _ (List.mem_append_right _ (List.mem_flatMap.mpr ⟨_, ?_, hmem⟩))
      exact List.mem_filter.mpr ⟨List.mem_map_of_mem hclause, hnonempty⟩
  | _ => cases h

end Repair

namespace Declaration

variable {keys : List String} {d : Declaration} {t : Expr}

theorem dangles_iff : d.Dangles keys t ↔ t ∈ d.subterms ∧ t.resolves (d.isKnown keys) = false := by
  simp only [Dangles, Expr.resolves_eq_false_iff, ← isKnown_iff, Bool.not_eq_true]

/-- What dangles in a repaired declaration dangled in an argument of a parent that was kept. -/
theorem dangles_repair_iff : (d.repair keys).Dangles keys t ↔ d.Dangles keys t ∧
    ∃ parent ∈ d.form.parents, ¬d.Dangles keys parent ∧
      ∃ arg ∈ parent.children, t ∈ arg.subterms := by
  have hsubterms : ∀ parent ∈ d.form.parents, ∀ t ∈ parent.subterms, t ∈ d.subterms :=
    fun parent hparent t ht =>
      List.mem_flatMap.mpr ⟨parent, d.form.mem_exprs_of_parent hparent, ht⟩
  rw [dangles_iff, dangles_iff, isKnown_repair]
  constructor
  · rintro ⟨hmem, hunknown⟩
    obtain ⟨e, he, ht⟩ := List.mem_flatMap.mp hmem
    rcases Form.mem_exprs_repair he with ⟨hparent, hkept⟩ | ⟨e', -, rfl⟩
    · refine ⟨⟨hsubterms e hparent t ht, hunknown⟩, e, hparent, ?_, ?_⟩
      · rw [dangles_iff, hkept]
        simp
      · rw [Expr.subterms_eq, List.mem_append, List.mem_flatMap, List.mem_singleton] at ht
        rcases ht with hinside | rfl
        · exact hinside
        · rw [hkept] at hunknown
          cases hunknown
    · rw [Expr.resolves_of_mem_repair ht] at hunknown
      cases hunknown
  · rintro ⟨⟨-, hunknown⟩, parent, hparent, hkept, arg, harg, ht⟩
    have hresolves : parent.resolves (d.isKnown keys) = true := by
      rw [← Bool.not_eq_false]
      intro hfalse
      have hmem : parent ∈ d.subterms := hsubterms parent hparent _ parent.mem_subterms_self
      exact hkept (dangles_iff.mpr ⟨hmem, hfalse⟩)
    have hinside : t ∈ parent.subterms := by
      rw [Expr.subterms_eq]
      exact List.mem_append_left _ (List.mem_flatMap.mpr ⟨arg, harg, ht⟩)
    exact ⟨List.mem_flatMap.mpr ⟨parent, Form.mem_exprs_repair_of_parent hparent hresolves, hinside⟩,
      hunknown⟩

end Declaration

namespace Pass

/-- After unknown references were repaired, a reference dangles exactly if it dangled before, in an
argument of a parent whose own name does not: in types, fields, type parameters, values and bindings
none is left, at any depth, and in a graph whose parents have no such arguments none at all. -/
theorem only_parent_arguments_dangle (g : Graph) :
    ∃ g', (g.apply missingReferencesToAny.change).result = .ok g' ∧ g'.keys = g.keys ∧
      ∀ key d', g'.get? key = some d' → ∃ d, g.get? key = some d ∧
        ∀ t, d'.Dangles g'.keys t ↔ d.Dangles g.keys t ∧
          ∃ parent ∈ d.form.parents, ¬d.Dangles g.keys parent ∧
            ∃ arg ∈ parent.children, t ∈ arg.subterms := by
  refine ⟨_, result_apply missingReferencesToAny g, g.keys_mapNodes _, fun key d' hd' => ?_⟩
  have hget : (g.get? key).map (Declaration.repair g.keys) = some d' :=
    (g.get?_mapNodes _ key).symm.trans hd'
  obtain ⟨d, hd, rfl⟩ := Option.map_eq_some_iff.mp hget
  refine ⟨d, hd, fun t => ?_⟩
  rw [show (missingReferencesToAny.run g).state.keys = g.keys from g.keys_mapNodes _]
  exact Declaration.dangles_repair_iff

end Pass

/-- A shelf of things, and a user with a field, a parent and a type parameter. -/
def shelfGraph (parent : Expr) : Graph where
  nodes := .ofList [("Shelf", { form := shelf }), ("User", { form := user })]
where
  shelf : Form := .record ⟨"Shelf", some "m", ""⟩ [⟨⟨"T", none, ""⟩, [], none, none⟩] [] []
  user : Form := .record ⟨"User", some "m", ""⟩
    [⟨⟨"K", none, ""⟩, [], some (.reference ⟨"Lost", some "m", ""⟩ []), none⟩]
    [⟨.extending, [parent]⟩]
    [⟨"Homes", [], false, .array (.nullable (.reference ⟨"Home", some "m", ""⟩ [])), []⟩]

/-- A thing that nothing declares. -/
def ghost : Expr := .reference ⟨"Ghost", some "m", ""⟩ []

/-- A shelf of such things. -/
def ghostShelf : Expr := .reference ⟨"Shelf", some "m", ""⟩ [ghost]

/-- Nothing declares the ghost, whether it is a parent or an argument of one. -/
theorem dangles_ghost {parent : Expr} (h : ghost ∈ parent.subterms) :
    Declaration.Dangles (shelfGraph parent).keys { form := shelfGraph.user parent } ghost := by
  have hexpr : parent ∈ (shelfGraph.user parent).exprs :=
    Form.mem_exprs_of_parent _ (List.mem_singleton_self parent)
  exact Declaration.dangles_iff.mpr ⟨List.mem_flatMap.mpr ⟨parent, hexpr, h⟩, rfl⟩

/-- The constraint and the field are repaired, and the parent that nothing declares is dropped. -/
theorem only_parent_arguments_dangle_shelf : ∃ g' d d', (shelfGraph ghost).get? "User" = some d ∧
    d.Dangles (shelfGraph ghost).keys ghost ∧
    ((shelfGraph ghost).apply Pass.missingReferencesToAny.change).result = .ok g' ∧
    g'.get? "User" = some d' ∧ ∀ t, ¬d'.Dangles g'.keys t := by
  obtain ⟨g', hresult, -, hdangles⟩ := Pass.only_parent_arguments_dangle (shelfGraph ghost)
  have hold : (shelfGraph ghost).get? "User" = some { form := shelfGraph.user ghost } := rfl
  have hghost := dangles_ghost ghost.mem_subterms_self
  obtain ⟨d', hd'⟩ : ∃ d', g'.get? "User" = some d' := by
    cases hresult
    exact ⟨_, rfl⟩
  refine ⟨g', _, d', hold, hghost, hresult, hd', fun t ht => ?_⟩
  obtain ⟨d, hd, hiff⟩ := hdangles "User" d' hd'
  obtain rfl : { form := shelfGraph.user ghost } = d := Option.some.inj (hold.symm.trans hd)
  obtain ⟨-, parent, hparent, hkept, -⟩ := (hiff t).mp ht
  obtain rfl : parent = ghost := List.mem_singleton.mp hparent
  exact hkept hghost

/-- The argument of a parent that is kept still names what nothing declares. -/
theorem parent_argument_dangles : ∃ g' d,
    ((shelfGraph ghostShelf).apply Pass.missingReferencesToAny.change).result = .ok g' ∧
    g'.get? "User" = some d ∧ d.Dangles g'.keys ghost := by
  have hghost : ghost ∈ ghostShelf.subterms := List.mem_append_left _ ghost.mem_subterms_self
  have hkept : ¬Declaration.Dangles (shelfGraph ghostShelf).keys
      { form := shelfGraph.user ghostShelf } ghostShelf := by
    rw [Declaration.dangles_iff]
    exact fun h => nomatch h.2
  refine ⟨_, _, Pass.result_apply .missingReferencesToAny _, rfl, ?_⟩
  exact Declaration.dangles_repair_iff.mpr ⟨dangles_ghost hghost, ghostShelf,
    List.mem_singleton_self _, hkept, ghost, List.mem_singleton_self _, ghost.mem_subterms_self⟩

end TypeBridge
