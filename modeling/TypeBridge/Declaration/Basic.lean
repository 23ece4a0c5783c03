import TypeBridge.Double

/-!
TypeScript declarations as trees: names, type expressions and the four forms of a declaration. What
every declaration has in common, its modifiers, the file it came from and its comments, stands
beside the form, so that changing the form keeps them.
-/

namespace TypeBridge

/-- A name of the generated code. It is emitted with its prefix; a name without a package is a
builtin, a global or a type parameter. -/
structure Identifier where
  name : String
  package : Option String := none
  namePrefix : String := ""
deriving DecidableEq, Inhabited, Repr

/-- The name as the generated code has it, and the key of its declaration. -/
def Identifier.emitted (i : Identifier) : String := i.namePrefix ++ i.name

inductive Modifier where
  | exported
  | readonly
  | declared
deriving DecidableEq, Inhabited, Repr

def Modifier.word : Modifier → String
  | exported => "export"
  | readonly => "readonly"
  | declared => "declare"

/-- The primitive types. -/
inductive Keyword where
  | void | any | boolean | number | string | undefined | unknown | never | bigint | object | symbol
deriving DecidableEq, Inhabited, Repr

def Keyword.word : Keyword → String
  | void => "void" | any => "any" | boolean => "boolean" | number => "number"
  | string => "string" | undefined => "undefined" | unknown => "unknown" | never => "never"
  | bigint => "bigint" | object => "object" | symbol => "symbol"

/-- A constant as a type. -/
inductive Literal where
  | string (value : String)
  | int (value : Int64)
  | float (value : Double)
  | bool (value : Bool)
deriving DecidableEq, Inhabited

namespace Literal

/-- Literals of one kind may stand in one list of values. -/
def sameKind : Literal → Literal → Bool
  | string _, string _ => true
  | int _, int _ => true
  | float _, float _ => true
  | bool _, bool _ => true
  | _, _ => false

/-- Equality of values; numbers are compared as numbers. -/
def same : Literal → Literal → Bool
  | string a, string b => a == b
  | int a, int b => a == b
  | float a, float b => a.same b
  | bool a, bool b => a == b
  | _, _ => false

end Literal

/-- The prefix operators on types. -/
inductive Operator where
  | readonly
  | unique
  | keyof
deriving DecidableEq, Inhabited, Repr

def Operator.word : Operator → String
  | readonly => "readonly"
  | unique => "unique"
  | keyof => "keyof"

/-- A comment of the generated code, without its markers. It stands before or after its owner. -/
structure Comment where
  leading : Bool
  singleLine : Bool
  text : String
  trailingNewline : Bool
deriving DecidableEq, Inhabited, Repr

namespace Comment

/-- A comment before its owner; a text of several lines makes a block. -/
def before (text : String) : Comment := ⟨true, !text.toList.contains '\n', text, true⟩

/-- A comment after its owner. -/
def after (text : String) : Comment := { before text with leading := false }

/-- Drops a marker at the front. -/
def dropFront (marker cs : List Char) : List Char :=
  if marker.isPrefixOf cs then cs.drop marker.length else cs

/-- Drops a marker at the end. -/
def dropBack (marker cs : List Char) : List Char :=
  if marker.isSuffixOf cs then cs.take (cs.length - marker.length) else cs

/-- The text of a source comment without the markers that it starts and ends with. -/
def stripMarkers (raw : List Char) : List Char :=
  dropBack ['*', '/'] (dropFront ['/', '*'] (dropFront ['/', '/'] raw))

/-- A comment of the source, markers included, as a comment of the generated code. -/
def ofSource (raw : String) (leading : Bool) : Comment :=
  ⟨leading, !raw.toList.contains '\n', String.ofList (stripMarkers raw.toList), true⟩

end Comment

/-- A member of a record or of an object type. -/
structure PropertyOf (ε : Type) where
  name : String
  modifiers : List Modifier
  optional : Bool
  type : ε
  comments : List Comment
deriving DecidableEq, Inhabited

/-- Expressions that denote types, and the values of constants. -/
inductive Expr where
  | keyword (word : Keyword)
  | literal (value : Literal)
  | reference (name : Identifier) (args : List Expr)
  | array (elem : Expr)
  | tuple (elem : Expr) (length : Nat)
  | arrayLiteral (items : List Expr)
  | union (arms : List Expr)
  | intersection (parts : List Expr)
  | null
  | operator (op : Operator) (inner : Expr)
  | typeLiteral (members : List (PropertyOf Expr))
deriving Inhabited

abbrev Property := PropertyOf Expr

namespace Expr

/-- A reference to a name outside every package. -/
def builtin (name : String) (args : List Expr) : Expr := .reference { name := name } args

/-- A type or null. -/
def nullable (inner : Expr) : Expr := .union [inner, .null]

def isNull : Expr → Bool
  | .null => true
  | _ => false

/-- The name of a reference. -/
def referenceName? : Expr → Option Identifier
  | .reference name _ => some name
  | _ => none

mutual

/-- Structural equality, with numbers compared as numbers. -/
def same : Expr → Expr → Bool
  | .keyword a, .keyword b => a == b
  | .literal a, .literal b => a.same b
  | .reference name args, .reference name' args' => name == name' && sameList args args'
  | .array elem, .array elem' => same elem elem'
  | .tuple elem length, .tuple elem' length' => length == length' && same elem elem'
  | .arrayLiteral items, .arrayLiteral items' => sameList items items'
  | .union arms, .union arms' => sameList arms arms'
  | .intersection parts, .intersection parts' => sameList parts parts'
  | .null, .null => true
  | .operator op inner, .operator op' inner' => op == op' && same inner inner'
  | .typeLiteral members, .typeLiteral members' => sameMembers members members'
  | _, _ => false

def sameList : List Expr → List Expr → Bool
  | [], [] => true
  | a :: rest, b :: rest' => same a b && sameList rest rest'
  | _, _ => false

def sameMembers : List (PropertyOf Expr) → List (PropertyOf Expr) → Bool
  | [], [] => true
  | ⟨name, modifiers, optional, type, comments⟩ :: rest, b :: rest' =>
      name == b.name && modifiers == b.modifiers && optional == b.optional &&
        same type b.type && comments == b.comments && sameMembers rest rest'
  | _, _ => false

end

end Expr

/-- A generic parameter of a declaration. -/
structure TypeParameter where
  name : Identifier
  modifiers : List Modifier := []
  constraint : Option Expr := none
  default : Option Expr := none
deriving Inhabited

inductive HeritageKind where
  | extending
  | implementing
deriving DecidableEq, Inhabited, Repr

def HeritageKind.word : HeritageKind → String
  | extending => "extends"
  | implementing => "implements"

structure Heritage where
  kind : HeritageKind
  args : List Expr
deriving Inhabited

structure EnumMember where
  name : String
  value : Option Expr := none
  comments : List Comment := []
deriving Inhabited

inductive VariableKind where
  | var
  | letVar
  | const
deriving DecidableEq, Inhabited, Repr

def VariableKind.word : VariableKind → String
  | var => "var"
  | letVar => "let"
  | const => "const"

/-- One binding of a variable statement. -/
structure Binding where
  name : Identifier
  exclamation : Bool := false
  type : Option Expr := none
  initializer : Option Expr := none
deriving Inhabited

/-- The forms of a declaration. A record is emitted as an interface. -/
inductive Form where
  | typeAlias (name : Identifier) (typeParams : List TypeParameter) (type : Expr)
  | record (name : Identifier) (typeParams : List TypeParameter) (heritage : List Heritage)
      (fields : List Property)
  | enumeration (name : Identifier) (members : List EnumMember)
  | statement (kind : VariableKind) (bindings : List Binding)
deriving Inhabited

/-- A declaration: its form, and what does not depend on the form. -/
structure Declaration where
  modifiers : List Modifier := []
  source : Option String := none
  comments : List Comment := []
  form : Form
deriving Inhabited

namespace Form

/-- The word for a form in messages. -/
def label : Form → String
  | typeAlias .. => "alias"
  | record .. => "record"
  | enumeration .. => "enum"
  | statement .. => "variable statement"

/-- The declared name; a variable statement answers with its first binding. -/
def name? : Form → Option Identifier
  | typeAlias name _ _ => some name
  | record name _ _ _ => some name
  | enumeration name _ => some name
  | statement _ bindings => bindings.head?.map Binding.name

def typeParams : Form → List TypeParameter
  | typeAlias _ params _ => params
  | record _ params _ _ => params
  | _ => []

end Form

/-- An alias without parameters, source or comments. -/
def Declaration.ofAlias (name : Identifier) (type : Expr) : Declaration :=
  { form := .typeAlias name [] type }

/-- A constant with an optional type. -/
def Form.constant (name : Identifier) (type : Option Expr) (value : Expr) : Form :=
  .statement .const [{ name := name, type := type, initializer := some value }]

end TypeBridge
