import TypeBridge.Declaration.Basic

/-!
Names that the generated code may use without a declaration of the source: the globals of
TypeScript, and the declarations that the generator supplies itself when something needs them.
-/

namespace TypeBridge

/-- The map type of TypeScript. -/
def recordName : String := "Record"

def typeScriptGlobals : List String :=
  [recordName, "Array", "ReadonlyArray", "Readonly", "Partial", "Required", "Map", "Set", "Date"]

/-- Declarations supplied on demand. -/
inductive Builtin where
  | comparable
deriving DecidableEq, Inhabited, Repr

namespace Builtin

def name : Builtin → String
  | comparable => "Comparable"

def reference (b : Builtin) : Expr := .builtin b.name []

/-- What can be compared is a string, a number or a boolean. -/
def declaration (b : Builtin) : Declaration :=
  .ofAlias { name := b.name }
    (.union [.keyword .string, .keyword .number, .keyword .boolean])

end Builtin

end TypeBridge
