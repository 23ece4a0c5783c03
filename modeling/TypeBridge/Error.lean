import TypeBridge.Declaration.Printer
import TypeBridge.Tag
import TypeBridge.Text.Visible
import TypeBridge.TypeText.Token

/-!
Why a conversion, a pass or a rendering stops. An error that happened while one object was
converted or one pass ran is wrapped with the name of that object or pass; the chain of causes keeps
what lies inside.
-/

namespace TypeBridge

open Text (quoted)

/-- Why a type has no counterpart. -/
inductive UnsupportedReason where
  | basicKind
  | signature
  | channel
  | foreignUnknown
  | constraint
  | manyEmbedded
  | underlying
  | universeConstant
  | constantType
  | undeclaredConstantType
deriving DecidableEq, Repr

def UnsupportedReason.wording : UnsupportedReason → String
  | basicKind => "basic kind has no JSON representation"
  | signature => "function values cannot be serialized"
  | channel => "channels cannot be serialized"
  | foreignUnknown => "named type outside the converted packages has no underlying type"
  | constraint => "type parameter constraints must be unions or named types"
  | manyEmbedded => "interfaces with more than one embedded constraint"
  | underlying => "no declaration form for this underlying type"
  | universeConstant => "constant of a universe type"
  | constantType => "constants must have a basic or named basic type"
  | undeclaredConstantType => "constant type is not declared in its package"

inductive Error where
  | unsupportedType (type : String) (reason : UnsupportedReason)
  | structTag (owner field : String) (cause : TagError)
  | duplicateNode (key : String)
  | typeParameterCollision (name : String)
  | circularGeneration (package name : String)
  | alreadySerialized
  | enumUpgrade (key : String) (found : String)
  | typeExpression (text : String) (cause : TypeText.TypeTextError)
  | duplicatePackage (path : String)
  | unknownNode (key : String)
  | render (key : String) (cause : PrintError)
  | object (package name : String) (cause : Error)
  | pass (name : String) (cause : Error)

namespace Error

def message : Error → String
  | unsupportedType type reason => "unsupported type " ++ type ++ ": " ++ reason.wording
  | structTag owner field _ =>
      "invalid struct tag on field " ++ quoted field ++ " of " ++ quoted owner
  | duplicateNode key => "node " ++ quoted key ++ " already exists"
  | typeParameterCollision name =>
      "type parameter " ++ quoted name ++ " is declared with conflicting constraints"
  | circularGeneration package name =>
      "circular generation detected for " ++ package ++ "." ++ name ++
        ", infinite loop will not end"
  | alreadySerialized => "already serialized, create a new graph to serialize again"
  | enumUpgrade key found =>
      "node " ++ quoted key ++ ": expected alias or enum for enum member, found " ++ found
  | typeExpression text _ => "failed to parse type expression " ++ quoted text
  | duplicatePackage path => "package " ++ path ++ " already exists"
  | unknownNode key => "serialization order names unknown node " ++ quoted key
  | render key _ => "render node " ++ quoted key
  | object package name _ => "parse object " ++ quoted name ++ " in " ++ quoted package
  | pass name _ => "mutation " ++ name

/-- The messages of what lies inside an error, outermost first. -/
def causes : Error → List String
  | structTag _ _ cause => [cause.message]
  | typeExpression _ cause => [cause.message]
  | render _ cause => [cause.message]
  | object _ _ cause => cause.message :: causes cause
  | pass _ cause => cause.message :: causes cause
  | _ => []

/-- The error inside all wrappers of objects and passes. -/
def root : Error → Error
  | object _ _ cause => root cause
  | pass _ cause => root cause
  | e => e

end Error

end TypeBridge
