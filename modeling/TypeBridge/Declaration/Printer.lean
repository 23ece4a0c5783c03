import TypeBridge.Decimal
import TypeBridge.Declaration.Basic

/-!
The TypeScript text of a declaration. Types bind in the usual order: a union weaker than an
intersection, that weaker than a prefix operator, that weaker than the brackets of an array; an
operand that binds too weakly stands in parentheses. Two things have no text: a number that is not
finite, and a declaration whose name is empty.
-/

namespace TypeBridge

inductive PrintError where
  | nonFiniteFloat (value : Double)
  | emptyName
deriving DecidableEq

def PrintError.message : PrintError → String
  | nonFiniteFloat value => "literal " ++ value.text ++ " has no TypeScript spelling"
  | emptyName => "declaration has no name"

/-- Anything that renders declarations one at a time, with a text before the first one. -/
structure Printer where
  header : String
  print : Declaration → Except PrintError String

/-- The choices of the TypeScript printer: spaces per level and the text before everything. -/
structure Style where
  indent : Nat := 4
  banner : String := "// Code generated by 'gots'. DO NOT EDIT.\n\n"
deriving Inhabited

/-- Decimal text of an integer. -/
def intText (n : Int) : String :=
  (if n < 0 then "-" else "") ++ Text.digitString n.natAbs

/-- How a character is written inside a string literal. -/
def literalChar (c : Char) : List Char :=
  if c = '"' then ['\\', '"']
  else if c = '\\' then ['\\', '\\']
  else if c = '\n' then ['\\', 'n']
  else if c = '\r' then ['\\', 'r']
  else if c = '\t' then ['\\', 't']
  else [c]

def literalString (s : String) : String :=
  String.ofList (['"'] ++ s.toList.flatMap literalChar ++ ['"'])

def Literal.print : Literal → Except PrintError String
  | .string value => .ok (literalString value)
  | .int value => .ok (intText value.toInt)
  | .float value => if value.isFinite then .ok value.text else .error (.nonFiniteFloat value)
  | .bool value => .ok (if value then "true" else "false")

def isIdentifierStart (c : Char) : Bool := c.isAlpha || c == '_' || c == '$'

def isIdentifierChar (c : Char) : Bool := c.isAlphanum || c == '_' || c == '$'

/-- Whether a name can stand without quotes. -/
def isIdentifierName (name : String) : Bool :=
  match name.toList with
  | [] => false
  | first :: rest => isIdentifierStart first && rest.all isIdentifierChar

def propertyName (name : String) : String :=
  if isIdentifierName name then name else literalString name

def modifierText (modifiers : List Modifier) : String :=
  String.join (modifiers.map fun m => m.word ++ " ")

namespace Comment

def body (c : Comment) : String :=
  if c.singleLine then "//" ++ c.text else "/*" ++ c.text ++ "*/"

/-- A comment before its owner: on a line of its own, or in front of it on the same line. -/
def beforeText (pad : String) (c : Comment) : String :=
  pad ++ c.body ++ (if c.trailingNewline || c.singleLine then "\n" else " ")

/-- The comments before their owner. -/
def leadingText (pad : String) (comments : List Comment) : String :=
  String.join ((comments.filter leading).map (beforeText pad))

/-- The comments after their owner, on the same line. -/
def trailingText (comments : List Comment) : String :=
  String.join ((comments.filter fun c => !c.leading).map fun c => " " ++ c.body)

end Comment

/-- Text in parentheses. -/
def parenthesized (text : String) : String := "(" ++ text ++ ")"

namespace Expr

/-- Whether an operand of an operator or of array brackets wants parentheses. -/
def needsParens : Expr → Bool
  | .union arms => 1 < arms.length
  | .intersection parts => 1 < parts.length
  | .operator _ _ => true
  | _ => false

def isUnion : Expr → Bool
  | .union _ => true
  | _ => false

end Expr

namespace Style

/-- The spaces in front of a line. -/
def pad (style : Style) (depth : Nat) : String :=
  String.ofList (List.replicate (style.indent * depth) ' ')

/-- The line of a property whose type is already printed. -/
def propertyLine (style : Style) (depth : Nat) (name : String) (modifiers : List Modifier)
    (optional : Bool) (comments : List Comment) (type : String) : String :=
  Comment.leadingText (style.pad depth) comments ++ style.pad depth ++ modifierText modifiers ++
    propertyName name ++ (if optional then "?" else "") ++ ": " ++ type ++ ";" ++
    Comment.trailingText comments ++ "\n"

mutual

/-- The text of an expression at a depth of nesting, which only object types show. -/
def expr (style : Style) (depth : Nat) : Expr → Except PrintError String
  | .keyword word => .ok word.word
  | .literal value => value.print
  | .null => .ok "null"
  | .reference name args => do
      let args ← exprs style depth args
      return if args.isEmpty then name.emitted
        else name.emitted ++ "<" ++ String.intercalate ", " args ++ ">"
  | .array elem => do
      let inner ← expr style depth elem
      return (if elem.needsParens then parenthesized inner else inner) ++ "[]"
  | .tuple elem length => do
      let inner ← expr style depth elem
      return "[" ++ String.intercalate ", " (List.replicate length inner) ++ "]"
  | .arrayLiteral items => do
      return "[" ++ String.intercalate ", " (← exprs style depth items) ++ "]"
  | .union arms => do return String.intercalate " | " (← exprs style depth arms)
  | .intersection parts => do
      return String.intercalate " & " (← intersectionParts style depth parts)
  | .operator op inner => do
      let text ← expr style depth inner
      return op.word ++ " " ++ (if inner.needsParens then parenthesized text else text)
  | .typeLiteral [] => .ok "\x7b\x7d"
  | .typeLiteral (member :: members) => do
      let lines ← properties style (depth + 1) (member :: members)
      return "\x7b\n" ++ lines ++ style.pad depth ++ "\x7d"

/-- The texts of several expressions. -/
def exprs (style : Style) (depth : Nat) : List Expr → Except PrintError (List String)
  | [] => .ok []
  | e :: rest => do
      let text ← expr style depth e
      return text :: (← exprs style depth rest)

/-- The texts of the parts of an intersection; a union among them stands in parentheses. -/
def intersectionParts (style : Style) (depth : Nat) :
    List Expr → Except PrintError (List String)
  | [] => .ok []
  | e :: rest => do
      let text ← expr style depth e
      let text := if e.isUnion then parenthesized text else text
      return text :: (← intersectionParts style depth rest)

/-- The lines of several properties. -/
def properties (style : Style) (depth : Nat) :
    List (PropertyOf Expr) → Except PrintError String
  | [] => .ok ""
  | ⟨name, modifiers, optional, type, comments⟩ :: rest => do
      let line := style.propertyLine depth name modifiers optional comments
        (← expr style depth type)
      return line ++ (← properties style depth rest)

end

/-- The emitted name of a declaration, which must not be empty. -/
def declaredName (name : Identifier) : Except PrintError String :=
  if name.emitted = "" then .error .emptyName else .ok name.emitted

/-- A part that may be missing, behind a separator. -/
def optionalPart (style : Style) (separator : String) : Option Expr → Except PrintError String
  | none => .ok ""
  | some e => do return separator ++ (← style.expr 0 e)

def typeParameter (style : Style) (p : TypeParameter) : Except PrintError String := do
  let constraint ← style.optionalPart " extends " p.constraint
  let default ← style.optionalPart " = " p.default
  return modifierText p.modifiers ++ p.name.emitted ++ constraint ++ default

def typeParameters (style : Style) (params : List TypeParameter) : Except PrintError String := do
  let parts ← params.mapM style.typeParameter
  return if parts.isEmpty then "" else "<" ++ String.intercalate ", " parts ++ ">"

/-- A clause without arguments is not written. -/
def heritageClause (style : Style) (h : Heritage) : Except PrintError String := do
  let args ← style.exprs 0 h.args
  return if args.isEmpty then ""
    else " " ++ h.kind.word ++ " " ++ String.intercalate ", " args

def heritageClauses (style : Style) (clauses : List Heritage) : Except PrintError String := do
  return String.join (← clauses.mapM style.heritageClause)

/-- The line of an enum member; all but the last end in a comma. -/
def enumMember (style : Style) (last : Bool) (m : EnumMember) : Except PrintError String := do
  let value ← match m.value with
    | none => pure ""
    | some value => do pure (" = " ++ (← style.expr 1 value))
  return Comment.leadingText (style.pad 1) m.comments ++ style.pad 1 ++ propertyName m.name ++
    value ++ (if last then "" else ",") ++ Comment.trailingText m.comments ++ "\n"

def enumMembers (style : Style) : List EnumMember → Except PrintError String
  | [] => .ok ""
  | m :: rest => do
      let line ← style.enumMember rest.isEmpty m
      return line ++ (← enumMembers style rest)

def binding (style : Style) (b : Binding) : Except PrintError String := do
  let name ← declaredName b.name
  let type ← style.optionalPart ": " b.type
  let value ← style.optionalPart " = " b.initializer
  return name ++ (if b.exclamation then "!" else "") ++ type ++ value

/-- The text of a declaration without its modifiers and comments. -/
def form (style : Style) : Form → Except PrintError String
  | .typeAlias name params type => do
      let name ← declaredName name
      let params ← style.typeParameters params
      return "type " ++ name ++ params ++ " = " ++ (← style.expr 0 type) ++ ";"
  | .record name params heritage fields => do
      let name ← declaredName name
      let params ← style.typeParameters params
      let heritage ← style.heritageClauses heritage
      return "interface " ++ name ++ params ++ heritage ++ " \x7b\n" ++
        (← style.properties 1 fields) ++ "\x7d"
  | .enumeration name members => do
      let name ← declaredName name
      return "enum " ++ name ++ " \x7b\n" ++ (← style.enumMembers members) ++ "\x7d"
  | .statement kind bindings => do
      let bindings ← bindings.mapM style.binding
      return kind.word ++ " " ++ String.intercalate ", " bindings ++ ";"

/-- The comment that names the file a declaration came from. -/
def sourceComment (file : String) : Comment := .before (" From " ++ file)

/-- The text of a declaration with its comments, without a final line break. -/
def print (style : Style) (d : Declaration) : Except PrintError String := do
  let text ← style.form d.form
  return Comment.leadingText "" ((d.source.map sourceComment).toList ++ d.comments) ++
    modifierText d.modifiers ++ text ++ Comment.trailingText d.comments

/-- The printer of a style. -/
def printer (style : Style) : Printer := ⟨style.banner, style.print⟩

end Style

end TypeBridge
