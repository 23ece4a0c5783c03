import TypeBridge.Graph

/-!
Passes about the forms of declarations. An interface is written as an alias of an object type: what it
extends becomes the other parts of an intersection. An enum is written as a union of its values, the
names of its members are shortened, and the values of such a union are listed in a constant.
-/

namespace TypeBridge

/-- A record as an alias: `A & B & fields` for a record that extends `A` and `B`. -/
def Form.interfaceToType : Form → Form
  | .record name params heritage fields =>
      let parents := heritage.flatMap Heritage.args
      let type : Expr :=
        if parents.isEmpty then .typeLiteral fields
        else .intersection (parents ++ [.typeLiteral fields])
      .typeAlias name params type
  | form => form

namespace EnumMember

/-- The value of a member; one without a value stands for its name. -/
def valueExpr (m : EnumMember) : Expr := m.value.getD (.literal (.string m.name))

/-- Strips a prefix from the name of a member, unless nothing would be left. -/
def trimPrefix (front : String) (m : EnumMember) : EnumMember :=
  let rest := m.name.toList.drop front.toList.length
  if front.toList.isPrefixOf m.name.toList && !rest.isEmpty then
    { m with name := String.ofList rest }
  else m

end EnumMember

namespace Form

/-- An enum as an alias of the union of its values. -/
def enumAsType : Form → Form
  | .enumeration name members => .typeAlias name [] (.union (members.map EnumMember.valueExpr))
  | form => form

/-- An enum whose members do not repeat its name. -/
def trimMembers : Form → Form
  | .enumeration name members => .enumeration name (members.map (·.trimPrefix name.name))
  | form => form

def isEnum : Form → Bool
  | .enumeration .. => true
  | _ => false

end Form

/-- The plural of a name. -/
def pluralOf (name : String) : String :=
  let sibilant := [['x'], ['s'], ['z'], ['c', 'h'], ['s', 'h']].any fun ending =>
    ending.isSuffixOf name.toList
  name ++ (if sibilant then "es" else "s")

/-- Whether the arms of a union are literals of one kind, and at least one. -/
def isValueUnion : List Expr → Bool
  | .literal first :: rest => rest.all fun arm =>
      match arm with
      | .literal value => value.sameKind first
      | _ => false
  | _ => false

/-- The constant that lists the values of an alias, with its key, if the alias is a union of
literals of one kind. -/
def Declaration.valueList? (d : Declaration) : Option (String × Declaration) :=
  match d.form with
  | .typeAlias name _ (.union arms) =>
      if isValueUnion arms then
        let plural := { name with name := pluralOf name.name }
        some (plural.emitted, {
          modifiers := if d.modifiers.contains .exported then [.exported] else []
          source := d.source
          form := .constant plural (some (.array (.reference name []))) (.arrayLiteral arms) })
      else none
  | _ => none

namespace Graph

/-- Writes every interface as an alias. -/
def interfaceToType (g : Graph) : Graph :=
  g.mapNodes fun _ d => { d with form := d.form.interfaceToType }

/-- Writes every enum as a union. -/
def enumAsTypes (g : Graph) : Graph := g.mapNodes fun _ d => { d with form := d.form.enumAsType }

/-- Shortens the members of every enum. -/
def trimEnumPrefix (g : Graph) : Graph :=
  g.mapNodes fun _ d => { d with form := d.form.trimMembers }

/-- The lists of values of all aliases, in the order of the graph. -/
def valueLists (g : Graph) : List (String × Declaration) :=
  g.nodes.values.filterMap Declaration.valueList?

/-- Adds one list of values, unless a declaration has its name. -/
def addValueList (list : String × Declaration) (g : Graph) : Outcome Graph :=
  if g.contains list.1 then { state := g, events := [.listSkipped list.1] }
  else match g.define list.1 list.2 with
    | .ok g => .done g
    | .error e => .stopped g e

/-- Adds the lists of values of all aliases. Enums that are still enums are only counted. -/
def enumLists (g : Graph) : Outcome Graph :=
  let enums := (g.nodes.values.filter fun d => d.form.isEnum).length
  let start : Outcome Graph :=
    { state := g, events := if enums = 0 then [] else [.enumsUnlisted enums] }
  start.andThen (Outcome.forEach addValueList g.valueLists)

end Graph

end TypeBridge
