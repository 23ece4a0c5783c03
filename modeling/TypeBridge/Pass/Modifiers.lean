import TypeBridge.Graph

/-!
Passes that add modifiers. One marks every declaration as exported. The other marks members and list
types as readonly, wherever a field or an alias shows them: through the arms of unions and the
members of object types, but not inside a type that is already readonly.
-/

namespace TypeBridge

namespace Declaration

/-- Puts `export` first, unless it is there. -/
def markExported (d : Declaration) : Declaration :=
  if d.modifiers.contains .exported then d
  else { d with modifiers := .exported :: d.modifiers }

end Declaration

/-- Adds `readonly` at the end, unless it is there. -/
def withReadonly (modifiers : List Modifier) : List Modifier :=
  if modifiers.contains .readonly then modifiers else modifiers ++ [.readonly]

namespace Expr

mutual

/-- Makes the lists and members that a type shows readonly. -/
def readOnly : Expr → Expr
  | .array elem => .operator .readonly (.array elem)
  | .tuple elem length => .operator .readonly (.tuple elem length)
  | .union arms => .union (readOnlyList arms)
  | .typeLiteral members => .typeLiteral (readOnlyMembers members)
  | e => e

def readOnlyList : List Expr → List Expr
  | [] => []
  | e :: rest => readOnly e :: readOnlyList rest

/-- Makes members and the types of members readonly. -/
def readOnlyMembers : List (PropertyOf Expr) → List (PropertyOf Expr)
  | [] => []
  | ⟨name, modifiers, optional, type, comments⟩ :: rest =>
      ⟨name, withReadonly modifiers, optional, readOnly type, comments⟩ :: readOnlyMembers rest

end

end Expr

/-- Makes the fields of a record and the type of an alias readonly. -/
def Form.readOnly : Form → Form
  | .typeAlias name params type => .typeAlias name params type.readOnly
  | .record name params heritage fields =>
      .record name params heritage (Expr.readOnlyMembers fields)
  | form => form

namespace Graph

/-- Exports every declaration. -/
def exportTypes (g : Graph) : Graph := g.mapNodes fun _ d => d.markExported

/-- Makes records and aliases readonly. -/
def readOnly (g : Graph) : Graph := g.mapNodes fun _ d => { d with form := d.form.readOnly }

end Graph

end TypeBridge
