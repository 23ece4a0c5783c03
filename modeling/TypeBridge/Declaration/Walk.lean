import TypeBridge.Declaration.Basic

/-!
Walks over expressions. The subterms of an expression are listed with every child before its parent,
and a change of all of them works in the same order: a parent is changed after its children, and
what a change puts in is not looked at again.
-/

namespace TypeBridge

namespace Expr

mutual

/-- All expressions inside an expression, children first, itself last. -/
def subterms : Expr → List Expr
  | .reference name args => subtermsList args ++ [.reference name args]
  | .array elem => subterms elem ++ [.array elem]
  | .tuple elem length => subterms elem ++ [.tuple elem length]
  | .arrayLiteral items => subtermsList items ++ [.arrayLiteral items]
  | .union arms => subtermsList arms ++ [.union arms]
  | .intersection parts => subtermsList parts ++ [.intersection parts]
  | .operator op inner => subterms inner ++ [.operator op inner]
  | .typeLiteral members => subtermsMembers members ++ [.typeLiteral members]
  | e => [e]

def subtermsList : List Expr → List Expr
  | [] => []
  | e :: rest => subterms e ++ subtermsList rest

def subtermsMembers : List (PropertyOf Expr) → List Expr
  | [] => []
  | ⟨_, _, _, type, _⟩ :: rest => subterms type ++ subtermsMembers rest

end

mutual

/-- Applies a change to every expression inside an expression, children first. -/
def mapSubterms (f : Expr → Expr) : Expr → Expr
  | .reference name args => f (.reference name (mapSubtermsList f args))
  | .array elem => f (.array (mapSubterms f elem))
  | .tuple elem length => f (.tuple (mapSubterms f elem) length)
  | .arrayLiteral items => f (.arrayLiteral (mapSubtermsList f items))
  | .union arms => f (.union (mapSubtermsList f arms))
  | .intersection parts => f (.intersection (mapSubtermsList f parts))
  | .operator op inner => f (.operator op (mapSubterms f inner))
  | .typeLiteral members => f (.typeLiteral (mapSubtermsMembers f members))
  | e => f e

def mapSubtermsList (f : Expr → Expr) : List Expr → List Expr
  | [] => []
  | e :: rest => mapSubterms f e :: mapSubtermsList f rest

def mapSubtermsMembers (f : Expr → Expr) : List (PropertyOf Expr) → List (PropertyOf Expr)
  | [] => []
  | ⟨name, modifiers, optional, type, comments⟩ :: rest =>
      ⟨name, modifiers, optional, mapSubterms f type, comments⟩ :: mapSubtermsMembers f rest

end

theorem subtermsList_eq_flatMap (es : List Expr) : subtermsList es = es.flatMap subterms := by
  induction es with
  | nil => rfl
  | cons e rest ih => simp [subtermsList, ih]

theorem subtermsMembers_eq_flatMap (members : List Property) :
    subtermsMembers members = members.flatMap (fun m => subterms m.type) := by
  induction members with
  | nil => rfl
  | cons m rest ih => simp [subtermsMembers, ih]

theorem mapSubtermsList_eq_map (f : Expr → Expr) (es : List Expr) :
    mapSubtermsList f es = es.map (mapSubterms f) := by
  induction es with
  | nil => rfl
  | cons e rest ih => simp [mapSubtermsList, ih]

theorem mapSubtermsMembers_eq_map (f : Expr → Expr) (members : List Property) :
    mapSubtermsMembers f members =
      members.map (fun m => { m with type := mapSubterms f m.type }) := by
  induction members with
  | nil => rfl
  | cons m rest ih => simp [mapSubtermsMembers, ih]

end Expr

namespace TypeParameter

/-- The constraint and the default. -/
def exprs (p : TypeParameter) : List Expr := p.constraint.toList ++ p.default.toList

def mapExprs (f : Expr → Expr) (p : TypeParameter) : TypeParameter :=
  { p with constraint := p.constraint.map f, default := p.default.map f }

end TypeParameter

namespace Form

/-- The outermost expressions of a declaration, in the order in which they are written. -/
def exprs : Form → List Expr
  | typeAlias _ params type => params.flatMap TypeParameter.exprs ++ [type]
  | record _ params heritage fields =>
      params.flatMap TypeParameter.exprs ++ heritage.flatMap Heritage.args ++
        fields.map PropertyOf.type
  | enumeration _ members => members.flatMap fun m => m.value.toList
  | statement _ bindings => bindings.flatMap fun b => b.type.toList ++ b.initializer.toList

/-- Changes the outermost expressions of a declaration. -/
def mapExprs (f : Expr → Expr) : Form → Form
  | typeAlias name params type => .typeAlias name (params.map (TypeParameter.mapExprs f)) (f type)
  | record name params heritage fields =>
      .record name (params.map (TypeParameter.mapExprs f))
        (heritage.map fun h => { h with args := h.args.map f })
        (fields.map fun p => { p with type := f p.type })
  | enumeration name members =>
      .enumeration name (members.map fun m => { m with value := m.value.map f })
  | statement kind bindings =>
      .statement kind (bindings.map fun b =>
        { b with type := b.type.map f, initializer := b.initializer.map f })

/-- Every expression of a declaration, children first. -/
def subterms (form : Form) : List Expr := form.exprs.flatMap Expr.subterms

/-- Changes every expression of a declaration, children first. -/
def mapSubterms (f : Expr → Expr) (form : Form) : Form := form.mapExprs (Expr.mapSubterms f)

end Form

namespace Declaration

def subterms (d : Declaration) : List Expr := d.form.subterms

def mapSubterms (f : Expr → Expr) (d : Declaration) : Declaration :=
  { d with form := d.form.mapSubterms f }

end Declaration

end TypeBridge
