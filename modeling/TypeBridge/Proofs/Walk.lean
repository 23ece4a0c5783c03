import Mathlib.Data.List.Basic
import Mathlib.Logic.Function.Conjugate
import TypeBridge.Declaration.Walk

/-!
Walks one level at a time. A change of all expressions inside an expression is the change of its
children followed by one step at the top, and what holds of an expression whenever it holds of its
children holds of every expression. Two walks commute when each of them commutes with a single step
of the other.
-/

namespace TypeBridge

theorem map_eq_self {α : Type} {f : α → α} {l : List α} (h : ∀ a ∈ l, f a = a) : l.map f = l :=
  (List.map_congr_left h).trans (List.map_id l)

/-- Changes the type of a member. -/
def Property.mapType (f : Expr → Expr) (p : Property) : Property := { p with type := f p.type }

namespace Expr

/-- The expressions directly inside an expression, in order. -/
def children : Expr → List Expr
  | .reference _ args => args
  | .array elem => [elem]
  | .tuple elem _ => [elem]
  | .arrayLiteral items => items
  | .union arms => arms
  | .intersection parts => parts
  | .operator _ inner => [inner]
  | .typeLiteral members => members.map PropertyOf.type
  | _ => []

/-- Changes the expressions directly inside an expression. -/
def mapChildren (f : Expr → Expr) : Expr → Expr
  | .reference name args => .reference name (args.map f)
  | .array elem => .array (f elem)
  | .tuple elem length => .tuple (f elem) length
  | .arrayLiteral items => .arrayLiteral (items.map f)
  | .union arms => .union (arms.map f)
  | .intersection parts => .intersection (parts.map f)
  | .operator op inner => .operator op (f inner)
  | .typeLiteral members => .typeLiteral (members.map (Property.mapType f))
  | e => e

theorem sizeOf_lt_of_mem_children {child e : Expr} (h : child ∈ e.children) :
    sizeOf child < sizeOf e := by
  have inside : ∀ es : List Expr, child ∈ es → sizeOf child < 1 + sizeOf es := fun es hmem =>
    Nat.lt_add_left 1 (List.sizeOf_lt_of_mem hmem)
  cases e with
  | reference name args =>
      have := inside args h
      rw [reference.sizeOf_spec]
      omega
  | arrayLiteral items =>
      rw [arrayLiteral.sizeOf_spec]
      exact inside items h
  | union arms =>
      rw [union.sizeOf_spec]
      exact inside arms h
  | intersection parts =>
      rw [intersection.sizeOf_spec]
      exact inside parts h
  | array elem =>
      rw [List.mem_singleton.mp h, array.sizeOf_spec]
      omega
  | tuple elem length =>
      rw [List.mem_singleton.mp h, tuple.sizeOf_spec]
      omega
  | operator op inner =>
      rw [List.mem_singleton.mp h, operator.sizeOf_spec]
      omega
  | typeLiteral members =>
      obtain ⟨m, hm, rfl⟩ := List.mem_map.mp h
      have := List.sizeOf_lt_of_mem hm
      obtain ⟨name, modifiers, optional, type, comments⟩ := m
      simp only [typeLiteral.sizeOf_spec, PropertyOf.mk.sizeOf_spec] at this ⊢
      omega
  | keyword word => cases h
  | literal value => cases h
  | null => cases h

/-- What an expression inherits from its children holds of all expressions. -/
theorem children_induction {P : Expr → Prop}
    (inherited : ∀ e : Expr, (∀ child ∈ e.children, P child) → P e) (e : Expr) : P e :=
  inherited e fun child _ => children_induction inherited child
termination_by sizeOf e
decreasing_by exact sizeOf_lt_of_mem_children ‹_›

/-- Inside an expression are the expressions inside its children, and itself. -/
theorem subterms_eq (e : Expr) : e.subterms = e.children.flatMap subterms ++ [e] := by
  cases e <;> simp [subterms, children, subtermsList_eq_flatMap, subtermsMembers_eq_flatMap,
    List.flatMap_map]

/-- What holds of all expressions inside an expression. -/
theorem forall_subterms_iff {P : Expr → Prop} {e : Expr} :
    (∀ t ∈ e.subterms, P t) ↔ (∀ child ∈ e.children, ∀ t ∈ child.subterms, P t) ∧ P e := by
  rw [subterms_eq, List.forall_mem_append, List.forall_mem_flatMap, List.forall_mem_singleton]

theorem mapSubterms_eq (f : Expr → Expr) (e : Expr) :
    e.mapSubterms f = f (e.mapChildren (mapSubterms f)) := by
  cases e with
  | typeLiteral members =>
      rw [mapSubterms, mapSubtermsMembers_eq_map]
      rfl
  | _ => simp [mapSubterms, mapChildren, mapSubtermsList_eq_map]

theorem mapChildren_mapChildren (f g : Expr → Expr) (e : Expr) :
    (e.mapChildren g).mapChildren f = e.mapChildren (f ∘ g) := by
  cases e <;> simp [mapChildren, Property.mapType]

theorem mapChildren_congr {f g : Expr → Expr} {e : Expr} (h : ∀ child ∈ e.children, f child = g child) :
    e.mapChildren f = e.mapChildren g := by
  cases e <;> simp_all [mapChildren, children, Property.mapType]

theorem mapChildren_id (e : Expr) : e.mapChildren id = e := by
  cases e with
  | typeLiteral members => exact congrArg typeLiteral (List.map_id'' (fun _ => rfl) members)
  | _ => simp [mapChildren]

theorem children_mapChildren (f : Expr → Expr) (e : Expr) :
    (e.mapChildren f).children = e.children.map f := by
  cases e <;> simp [mapChildren, children, Property.mapType]

/-- A walk whose steps change nothing inside an expression does not change it. -/
theorem mapSubterms_eq_self {f : Expr → Expr} {e : Expr} (h : ∀ t ∈ e.subterms, f t = t) :
    e.mapSubterms f = e := by
  induction e using children_induction with
  | inherited e ih =>
      obtain ⟨hinside, hself⟩ := forall_subterms_iff.mp h
      have hchildren : e.mapChildren (mapSubterms f) = e.mapChildren id :=
        mapChildren_congr fun child hchild => ih child hchild (hinside child hchild)
      rw [mapSubterms_eq, hchildren, mapChildren_id]
      exact hself

/-- What a walk leaves is left alone by its steps, if all that a step puts in is left alone by it or
stood in a child. -/
theorem eq_self_of_mem_mapSubterms {f : Expr → Expr}
    (hstep : ∀ e : Expr, ∀ t ∈ (f e).subterms, f t = t ∨ ∃ child ∈ e.children, t ∈ child.subterms)
    (e : Expr) : ∀ t ∈ (e.mapSubterms f).subterms, f t = t := by
  induction e using children_induction with
  | inherited e ih =>
      intro t ht
      rw [mapSubterms_eq] at ht
      rcases hstep _ t ht with hself | ⟨_, hchild, hinside⟩
      · exact hself
      · rw [children_mapChildren] at hchild
        obtain ⟨child, hmem, rfl⟩ := List.mem_map.mp hchild
        exact ih child hmem t hinside

/-- A walk keeps what holds of all expressions inside an expression, if its steps do and if it holds of
an expression whatever becomes of its children. -/
theorem forall_subterms_mapSubterms {P : Expr → Prop} {f : Expr → Expr}
    (hself : ∀ e : Expr, P e → P (e.mapChildren (mapSubterms f)))
    (hstep : ∀ e : Expr, (∀ t ∈ e.subterms, P t) → ∀ t ∈ (f e).subterms, P t) {e : Expr}
    (h : ∀ t ∈ e.subterms, P t) : ∀ t ∈ (e.mapSubterms f).subterms, P t := by
  induction e using children_induction with
  | inherited e ih =>
      obtain ⟨hchildren, htop⟩ := forall_subterms_iff.mp h
      rw [mapSubterms_eq]
      refine hstep _ (forall_subterms_iff.mpr ⟨?_, hself e htop⟩)
      rw [children_mapChildren, List.forall_mem_map]
      exact fun child hchild => ih child hchild (hchildren child hchild)

/-- Walks commute when each commutes with the steps of the other, and the steps with each other. -/
theorem mapSubterms_commute {f g : Expr → Expr} (hf : Function.Commute (mapSubterms f) g)
    (hg : Function.Commute (mapSubterms g) f) (hstep : Function.Commute f g) :
    Function.Commute (mapSubterms f) (mapSubterms g) := by
  intro e
  induction e using children_induction with
  | inherited e ih =>
      calc mapSubterms f (mapSubterms g e)
          = g (mapSubterms f (e.mapChildren (mapSubterms g))) := by rw [mapSubterms_eq g e, hf]
        _ = g (f (e.mapChildren (mapSubterms f ∘ mapSubterms g))) := by
            rw [mapSubterms_eq f, mapChildren_mapChildren]
        _ = f (g (e.mapChildren (mapSubterms g ∘ mapSubterms f))) := by
            rw [hstep]
            exact congrArg (fun e => g (f e)) (mapChildren_congr ih)
        _ = f (mapSubterms g (e.mapChildren (mapSubterms f))) := by
            rw [mapSubterms_eq g, mapChildren_mapChildren]
        _ = mapSubterms g (mapSubterms f e) := by rw [mapSubterms_eq f e, hg]

end Expr

theorem TypeParameter.exprs_mapExprs (f : Expr → Expr) (p : TypeParameter) :
    (p.mapExprs f).exprs = p.exprs.map f := by
  cases hconstraint : p.constraint <;> cases hdefault : p.default <;>
    simp [exprs, mapExprs, hconstraint, hdefault]

theorem TypeParameter.mapExprs_eq_self {f : Expr → Expr} {p : TypeParameter}
    (h : ∀ e ∈ p.exprs, f e = e) : p.mapExprs f = p := by
  obtain ⟨name, modifiers, constraint, default⟩ := p
  cases constraint <;> cases default <;> simp_all [mapExprs, exprs]

namespace Form

theorem forall_subterms_iff {P : Expr → Prop} {form : Form} :
    (∀ t ∈ form.subterms, P t) ↔ ∀ e ∈ form.exprs, ∀ t ∈ e.subterms, P t :=
  List.forall_mem_flatMap

theorem exprs_mapExprs (f : Expr → Expr) (form : Form) :
    (form.mapExprs f).exprs = form.exprs.map f := by
  cases form with
  | typeAlias name params type =>
      simp [exprs, mapExprs, List.flatMap_map, List.map_flatMap, TypeParameter.exprs_mapExprs]
  | record name params heritage fields =>
      simp [exprs, mapExprs, List.flatMap_map, List.map_flatMap, TypeParameter.exprs_mapExprs]
  | enumeration name members =>
      simp only [exprs, mapExprs, List.flatMap_map, List.map_flatMap]
      refine List.flatMap_congr fun m _ => ?_
      cases m.value <;> rfl
  | statement kind bindings =>
      simp only [exprs, mapExprs, List.flatMap_map, List.map_flatMap]
      refine List.flatMap_congr fun b _ => ?_
      cases b.type <;> cases b.initializer <;> rfl

theorem mapExprs_mapExprs (f g : Expr → Expr) (form : Form) :
    (form.mapExprs g).mapExprs f = form.mapExprs (f ∘ g) := by
  cases form <;> simp [mapExprs, TypeParameter.mapExprs, Function.comp_def]

theorem mapExprs_commute {f g : Expr → Expr} (h : Function.Commute f g) :
    Function.Commute (mapExprs f) (mapExprs g) := by
  intro form
  rw [mapExprs_mapExprs, mapExprs_mapExprs, h.comp_eq]

/-- A change of no expression of a declaration does not change it. -/
theorem mapExprs_eq_self {f : Expr → Expr} {form : Form} (h : ∀ e ∈ form.exprs, f e = e) :
    form.mapExprs f = form := by
  have hparams : ∀ {params : List TypeParameter}, (∀ e ∈ params.flatMap TypeParameter.exprs, f e = e) →
      params.map (TypeParameter.mapExprs f) = params := fun h => map_eq_self fun p hp =>
    TypeParameter.mapExprs_eq_self fun e he => h e (List.mem_flatMap.mpr ⟨p, hp, he⟩)
  cases form with
  | typeAlias name params type =>
      obtain ⟨hps, htype⟩ := List.forall_mem_append.mp h
      rw [mapExprs, hparams hps, htype type (List.mem_singleton_self type)]
  | record name params heritage fields =>
      obtain ⟨hfront, hfields⟩ := List.forall_mem_append.mp h
      obtain ⟨hps, hargs⟩ := List.forall_mem_append.mp hfront
      have hclauses : heritage.map (fun clause => { clause with args := clause.args.map f }) = heritage :=
        map_eq_self fun clause hclause => by
          rw [map_eq_self fun e he => hargs e (List.mem_flatMap.mpr ⟨clause, hclause, he⟩)]
      have htypes : fields.map (fun p => { p with type := f p.type }) = fields :=
        map_eq_self fun p hp => by rw [hfields p.type (List.mem_map_of_mem hp)]
      rw [mapExprs, hparams hps, hclauses, htypes]
  | enumeration name members =>
      refine congrArg (enumeration name) (map_eq_self fun m hm => ?_)
      obtain ⟨member, value, comments⟩ := m
      cases value with
      | none => rfl
      | some value => rw [Option.map_some, h value (List.mem_flatMap.mpr ⟨_, hm, List.mem_singleton_self _⟩)]
  | statement kind bindings =>
      refine congrArg (statement kind) (map_eq_self fun b hb => ?_)
      have hbinding := fun e he => h e (List.mem_flatMap.mpr ⟨b, hb, he⟩)
      obtain ⟨name, exclamation, type, initializer⟩ := b
      cases type <;> cases initializer <;> simp_all

end Form

end TypeBridge
