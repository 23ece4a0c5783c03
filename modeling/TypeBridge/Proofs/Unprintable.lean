import TypeBridge.Proofs.LoneMembers

/-!
Declarations without a text. Whatever stands against printing a declaration is listed in the order in
which it would be written, and printing fails with the first entry of the list. A walk over the
declaration sees all of it: what the list is made of is empty names and visited numbers that are not
finite.
-/

namespace TypeBridge

theorem errorOf_mapM {ε α β : Type} {f : α → Except ε β} {faults : α → List ε} {xs : List α}
    (h : ∀ x ∈ xs, errorOf (f x) = (faults x).head?) :
    errorOf (xs.mapM f) = (xs.flatMap faults).head? := by
  induction xs with
  | nil => rfl
  | cons x xs ih =>
      obtain ⟨hfirst, hlater⟩ := List.forall_mem_cons.mp h
      rw [List.mapM_cons, List.flatMap_cons, List.head?_append, ← hfirst, ← ih hlater]
      exact errorOf_bind fun y => errorOf_map (xs.mapM f) _

/-! ### Faults in the order of writing -/

/-- What stands against declaring a name. -/
def Identifier.printErrors (name : Identifier) : List PrintError :=
  if name.emitted = "" then [.emptyName] else []

/-- What stands against a binding: its name, its type and its value. -/
def Binding.printErrors (b : Binding) : List PrintError :=
  b.name.printErrors ++ (b.type.toList ++ b.initializer.toList).flatMap Expr.printErrors

namespace Form

/-- The names that a declaration declares. -/
def declaredNames : Form → List Identifier
  | typeAlias name _ _ => [name]
  | record name _ _ _ => [name]
  | enumeration name _ => [name]
  | statement _ bindings => bindings.map Binding.name

/-- What stands against printing a declaration, in the order in which it is met. -/
def printErrors (form : Form) : List PrintError :=
  match form with
  | typeAlias name _ _ | record name _ _ _ | enumeration name _ =>
      name.printErrors ++ form.exprs.flatMap Expr.printErrors
  | statement _ bindings => bindings.flatMap Binding.printErrors

end Form

/-! ### Printing fails with the first fault -/

section FirstFault

variable (style : Style)

theorem errorOf_declaredName (name : Identifier) :
    errorOf (Style.declaredName name) = name.printErrors.head? := by
  unfold Style.declaredName Identifier.printErrors
  split <;> rfl

theorem errorOf_optionalPart (separator : String) (part : Option Expr) :
    errorOf (style.optionalPart separator part) = (part.toList.flatMap Expr.printErrors).head? := by
  cases part with
  | none => rfl
  | some e =>
      rw [Option.toList_some, List.flatMap_singleton]
      exact (errorOf_map _ _).trans (e.failsAsFound style 0)

theorem errorOf_typeParameter (p : TypeParameter) :
    errorOf (style.typeParameter p) = (p.exprs.flatMap Expr.printErrors).head? := by
  rw [TypeParameter.exprs, List.flatMap_append, List.head?_append,
    ← errorOf_optionalPart style " extends ", ← errorOf_optionalPart style " = "]
  exact errorOf_bind fun constraint => errorOf_map _ _

theorem errorOf_typeParameters (params : List TypeParameter) :
    errorOf (style.typeParameters params) =
      ((params.flatMap TypeParameter.exprs).flatMap Expr.printErrors).head? := by
  rw [List.flatMap_assoc, ← errorOf_mapM fun p _ => errorOf_typeParameter style p]
  exact errorOf_map _ _

theorem errorOf_heritageClauses (clauses : List Heritage) :
    errorOf (style.heritageClauses clauses) =
      ((clauses.flatMap Heritage.args).flatMap Expr.printErrors).head? := by
  have hclause : ∀ clause ∈ clauses, errorOf (style.heritageClause clause) =
      (clause.args.flatMap Expr.printErrors).head? := fun clause _ =>
    (errorOf_map _ _).trans (errorOf_exprs (fun e _ => e.failsAsFound style) 0)
  rw [List.flatMap_assoc, ← errorOf_mapM hclause]
  exact errorOf_map _ _

theorem errorOf_enumMember (last : Bool) (m : EnumMember) :
    errorOf (style.enumMember last m) = (m.value.toList.flatMap Expr.printErrors).head? := by
  obtain ⟨name, value, comments⟩ := m
  cases value with
  | none => rfl
  | some value =>
      rw [Option.toList_some, List.flatMap_singleton, ← value.failsAsFound style 1]
      cases h : style.expr 1 value <;> simp [Style.enumMember, errorOf, h, bind, Except.bind, pure, Except.pure]

theorem errorOf_enumMembers (members : List EnumMember) :
    errorOf (style.enumMembers members) =
      ((members.flatMap fun m => m.value.toList).flatMap Expr.printErrors).head? := by
  induction members with
  | nil => rfl
  | cons m rest ih =>
      rw [List.flatMap_cons, List.flatMap_append, List.head?_append,
        ← errorOf_enumMember style rest.isEmpty, ← ih]
      exact errorOf_bind fun line => errorOf_map _ _

theorem errorOf_binding (b : Binding) : errorOf (style.binding b) = b.printErrors.head? := by
  rw [Binding.printErrors, List.flatMap_append, List.head?_append, List.head?_append,
    ← errorOf_declaredName, ← errorOf_optionalPart style ": ", ← errorOf_optionalPart style " = "]
  exact errorOf_bind fun name => errorOf_bind fun type => errorOf_map _ _

theorem errorOf_form (form : Form) : errorOf (style.form form) = form.printErrors.head? := by
  cases form with
  | typeAlias name params type =>
      rw [Form.printErrors, Form.exprs, List.flatMap_append,
        List.flatMap_singleton, List.head?_append, List.head?_append, ← errorOf_declaredName,
        ← errorOf_typeParameters style, ← type.failsAsFound style 0]
      exact errorOf_bind fun name => errorOf_bind fun params => errorOf_map _ _
  | record name params heritage fields =>
      have hfields : errorOf (style.properties 1 fields) = _ :=
        errorOf_properties (fun m _ => m.type.failsAsFound style) 1
      rw [Form.printErrors, Form.exprs, List.flatMap_append,
        List.flatMap_append, List.flatMap_map, List.head?_append, List.head?_append, List.head?_append,
        ← errorOf_declaredName, ← errorOf_typeParameters style,
        ← errorOf_heritageClauses style, ← hfields, Option.or_assoc]
      exact errorOf_bind fun name => errorOf_bind fun params => errorOf_bind fun heritage =>
        errorOf_map _ _
  | enumeration name members =>
      rw [Form.printErrors, Form.exprs, List.head?_append,
        ← errorOf_declaredName, ← errorOf_enumMembers style]
      exact errorOf_bind fun name => errorOf_map _ _
  | statement kind bindings =>
      rw [Form.printErrors, ← errorOf_mapM fun b _ => errorOf_binding style b]
      exact errorOf_map _ _

/-- Printing a declaration fails with the first thing that stands against it, if there is one. -/
theorem errorOf_print (d : Declaration) :
    errorOf (style.print d) = d.form.printErrors.head? :=
  (errorOf_map _ _).trans (errorOf_form style d.form)

end FirstFault

/-! ### What the faults are -/

/-- A literal of a number that is infinite or no number. -/
def Expr.isNonFinite : Expr → Bool
  | .literal (.float value) => !value.isFinite
  | _ => false

theorem Expr.printError?_eq_none_iff {e : Expr} : e.printError? = none ↔ e.isNonFinite = false := by
  cases e with
  | literal value =>
      cases value with
      | float value => cases h : value.isFinite <;> simp [printError?, isNonFinite, Literal.print, errorOf, h]
      | _ => simp [printError?, isNonFinite, Literal.print, errorOf]
  | _ => simp [printError?, isNonFinite]

theorem Expr.printErrors_eq_nil_iff {e : Expr} :
    e.printErrors = [] ↔ ∀ t ∈ e.subterms, t.isNonFinite = false := by
  simp only [printErrors, List.flatMap_eq_nil_iff, Option.toList_eq_nil_iff, printError?_eq_none_iff]

theorem Identifier.printErrors_eq_nil_iff {name : Identifier} :
    name.printErrors = [] ↔ name.emitted ≠ "" := by
  unfold printErrors
  split <;> simp_all

/-- Nothing stands against a declaration whose names are not empty and whose numbers are finite. -/
theorem Form.printErrors_eq_nil_iff {form : Form} : form.printErrors = [] ↔
    (∀ name ∈ form.declaredNames, name.emitted ≠ "") ∧ ∀ t ∈ form.subterms, t.isNonFinite = false := by
  have hvisited : (∀ t ∈ form.subterms, t.isNonFinite = false) ↔
      form.exprs.flatMap Expr.printErrors = [] := by
    rw [Form.forall_subterms_iff, List.flatMap_eq_nil_iff]
    exact forall₂_congr fun e _ => Expr.printErrors_eq_nil_iff.symm
  have hnames : (∀ name ∈ form.declaredNames, name.emitted ≠ "") ↔
      form.declaredNames.flatMap Identifier.printErrors = [] := by
    rw [List.flatMap_eq_nil_iff]
    exact forall₂_congr fun name _ => Identifier.printErrors_eq_nil_iff.symm
  rw [hvisited, hnames, ← List.append_eq_nil_iff]
  cases form with
  | statement kind bindings =>
      -- the faults of a statement stand binding by binding, names among the rest
      simp only [printErrors, declaredNames, exprs, Binding.printErrors, List.append_eq_nil_iff,
        List.flatMap_eq_nil_iff, List.mem_map, List.mem_flatMap]
      grind
  | _ => simp only [printErrors, declaredNames, List.flatMap_singleton]

/-- A declaration cannot be printed exactly when a name that it declares is empty or a walk over it
comes to a number that is not finite. -/
theorem Style.print_fails_iff (style : Style) (d : Declaration) :
    (∃ e, style.print d = .error e) ↔
      (∃ name ∈ d.form.declaredNames, name.emitted = "") ∨ ∃ t ∈ d.subterms, t.isNonFinite = true := by
  have hfails : (∃ e, style.print d = .error e) ↔ errorOf (style.print d) ≠ none := by
    cases style.print d <;> simp [errorOf]
  rw [hfails, errorOf_print, Ne, List.head?_eq_none_iff, Form.printErrors_eq_nil_iff, not_and_or]
  simp only [not_forall, exists_prop, not_not, Bool.not_eq_false, Declaration.subterms]

end TypeBridge
