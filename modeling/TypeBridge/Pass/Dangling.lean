import TypeBridge.Builtin
import TypeBridge.Declaration.Walk
import TypeBridge.Graph

/-!
The pass that repairs references to names that nothing declares. A name is known when it is a key of
the graph, a global, or a type parameter of its own declaration. An unknown reference becomes `any`,
and a parent that is unknown is dropped; the owner, a field, an enum member or the declaration, gets
a comment that says so.
-/

namespace TypeBridge

namespace Expr

/-- The unknown names that an expression refers to, children first. -/
def missing (known : String → Bool) (e : Expr) : List String :=
  e.subterms.filterMap fun t =>
    match t with
    | .reference name _ => if known name.emitted then none else some name.emitted
    | _ => none

/-- An unknown reference is `any`. -/
def anyIfUnknown (known : String → Bool) : Expr → Expr
  | .reference name args =>
      if known name.emitted then .reference name args else .keyword .any
  | e => e

/-- An expression without unknown references. -/
def repair (known : String → Bool) (e : Expr) : Expr := e.mapSubterms (anyIfUnknown known)

/-- Whether a parent is known; what is no reference is. -/
def resolves (known : String → Bool) : Expr → Bool
  | .reference name _ => known name.emitted
  | _ => true

/-- The name of a parent. -/
def parentName : Expr → String
  | .reference name _ => name.emitted
  | _ => ""

end Expr

/-- The comment about names that were replaced. -/
def missingComment (missing : List String) : Comment :=
  .before (" Reference to unknown type " ++ String.intercalate ", " missing ++
    " replaced with 'any'")

/-- The comment about missing names, if any are missing. -/
def missingNote (missing : List String) : List Comment :=
  if missing.isEmpty then [] else [missingComment missing]

namespace TypeParameter

def missing (known : String → Bool) (p : TypeParameter) : List String :=
  p.exprs.flatMap (Expr.missing known)

def repair (known : String → Bool) (p : TypeParameter) : TypeParameter :=
  p.mapExprs (Expr.repair known)

end TypeParameter

namespace Heritage

/-- The parents that nothing declares. -/
def missing (known : String → Bool) (h : Heritage) : List String :=
  (h.args.filter fun arg => !arg.resolves known).map Expr.parentName

def repair (known : String → Bool) (h : Heritage) : Heritage :=
  { h with args := h.args.filter (Expr.resolves known) }

end Heritage

/-- A field without unknown references, with a comment about them. -/
def Property.repair (known : String → Bool) (p : Property) : Property :=
  { p with
    type := p.type.repair known
    comments := p.comments ++ missingNote (p.type.missing known) }

namespace EnumMember

def missing (known : String → Bool) (m : EnumMember) : List String :=
  m.value.toList.flatMap (Expr.missing known)

/-- A member without unknown references, with a comment about them. -/
def repair (known : String → Bool) (m : EnumMember) : EnumMember :=
  { m with
    value := m.value.map (Expr.repair known)
    comments := m.comments ++ missingNote (m.missing known) }

end EnumMember

namespace Form

/-- The unknown names that the declaration itself answers for. -/
def missing (known : String → Bool) : Form → List String
  | .typeAlias _ params type => params.flatMap (TypeParameter.missing known) ++ type.missing known
  | .record _ params heritage _ =>
      params.flatMap (TypeParameter.missing known) ++ heritage.flatMap (Heritage.missing known)
  | .enumeration _ _ => []
  | .statement kind bindings => (Form.statement kind bindings).exprs.flatMap (Expr.missing known)

/-- The unknown names that each field or enum member answers for. -/
def partsMissing (known : String → Bool) : Form → List (List String)
  | .record _ _ _ fields => fields.map fun p => p.type.missing known
  | .enumeration _ members => members.map (EnumMember.missing known)
  | _ => []

/-- A form without unknown references; parents are dropped, and so are clauses without any. -/
def repair (known : String → Bool) : Form → Form
  | .record name params heritage fields =>
      .record name (params.map (TypeParameter.repair known))
        ((heritage.map (Heritage.repair known)).filter fun h => !h.args.isEmpty)
        (fields.map (Property.repair known))
  | .enumeration name members => .enumeration name (members.map (EnumMember.repair known))
  | form => form.mapExprs (Expr.repair known)

end Form

namespace Declaration

/-- The names that a declaration may refer to, given those of the graph. -/
def isKnown (keys : List String) (d : Declaration) (name : String) : Bool :=
  keys.contains name || typeScriptGlobals.contains name ||
    d.form.typeParams.any fun p => p.name.emitted == name

/-- A declaration without unknown references, with a comment about its own. -/
def repair (keys : List String) (d : Declaration) : Declaration :=
  let known := d.isKnown keys
  { d with
    form := d.form.repair known
    comments := d.comments ++ missingNote (d.form.missing known) }

/-- What repairing a declaration reports: its parts first, then itself. -/
def repairEvents (keys : List String) (key : String) (d : Declaration) : List Event :=
  let known := d.isKnown keys
  ((d.form.partsMissing known ++ [d.form.missing known]).filter fun missing =>
    !missing.isEmpty).map (.unresolved key)

end Declaration

/-- Repairs every declaration of a graph. -/
def Graph.missingReferencesToAny (g : Graph) : Outcome Graph where
  state := g.mapNodes fun _ d => d.repair g.keys
  events := g.nodes.entries.flatMap fun node => node.2.repairEvents g.keys node.1

end TypeBridge
