import TypeBridge.Builtin
import TypeBridge.Declaration.Walk
import TypeBridge.Graph

/-!
Passes that drop null where it says nothing: in the type of an optional member, beside a map, and in
the elements of an array.
-/

namespace TypeBridge

namespace Expr

/-- A union without its null arms; a single arm that is left stands alone. -/
def dropNull : Expr → Expr
  | .union arms =>
      if arms.any isNull then
        match arms.filter fun arm => !arm.isNull with
        | [arm] => arm
        | rest => .union rest
      else .union arms
  | e => e

/-- The other arm of a union of two with null. -/
def nonNullArm? : Expr → Option Expr
  | .union [a, b] =>
      match a.isNull, b.isNull with
      | true, false => some b
      | false, true => some a
      | _, _ => none
  | _ => none

/-- A reference to the map type. -/
def isMap : Expr → Bool
  | .reference name _ => name.package.isNone && name.name == recordName
  | _ => false

end Expr

/-- Drops null from the type of an optional member. -/
def Property.simplifyOptional (p : Property) : Property :=
  if p.optional then { p with type := p.type.dropNull } else p

namespace Expr

/-- Drops null from the optional members of an object type. -/
def simplifyMembers : Expr → Expr
  | .typeLiteral members => .typeLiteral (members.map Property.simplifyOptional)
  | e => e

/-- A map that may be null is a map. -/
def notNullMap (e : Expr) : Expr :=
  match e.nonNullArm? with
  | some arm => if arm.isMap then arm else e
  | none => e

/-- An array whose elements may be null is an array of the others. -/
def notNullElements : Expr → Expr
  | .array elem => .array (elem.nonNullArm?.getD elem)
  | e => e

end Expr

/-- Drops null from the optional fields of a record. -/
def Form.simplifyFields : Form → Form
  | .record name params heritage fields =>
      .record name params heritage (fields.map Property.simplifyOptional)
  | form => form

namespace Graph

/-- Drops null from all optional members. -/
def simplifyOptional (g : Graph) : Graph := g.mapNodes fun _ d =>
  { d with form := d.form.simplifyFields.mapSubterms Expr.simplifyMembers }

/-- Drops null beside maps. -/
def notNullMaps (g : Graph) : Graph := g.mapNodes fun _ d => d.mapSubterms Expr.notNullMap

/-- Drops null from the elements of arrays. -/
def nullUnionSlices (g : Graph) : Graph := g.mapNodes fun _ d => d.mapSubterms Expr.notNullElements

end Graph

end TypeBridge
