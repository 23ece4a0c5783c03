import TypeBridge.Mapping
import TypeBridge.Source.Basic

/-!
Objects of a package as declarations. A type becomes a record or an alias, a constant of a named
basic type becomes a member of that type's enum, and any other constant a constant; variables and
functions have no counterpart. Declaring an object does not look at what was declared before.
-/

namespace TypeBridge

/-- What an object adds to the declarations under construction: nothing, a declaration under a new
key, a declaration that enum members may be waiting for, or an enum member. -/
inductive Emission where
  | nothing
  | define (key : String) (d : Declaration)
  | fill (key : String) (d : Declaration)
  | member (key : String) (m : EnumMember)

/-- The comments of a declaration or a field. -/
def docComments (doc : List DocComment) : List Comment :=
  doc.map fun c => .ofSource c.text (!c.trailing)

/-- Comments that were raised while types were mapped. -/
def raisedComments (raised : List String) : List Comment :=
  raised.map fun text => .before (" " ++ text)

/-- The file of an object under its package's name. -/
def Package.sourceOf (p : Package) (position : Option Position) : Option String :=
  position.map fun pos => p.name ++ "/" ++ pos.baseName

def ConstValue.literal : ConstValue → Literal
  | .bool value => .bool value
  | .int value => .int value
  | .float value => .float value
  | .string value => .string value

/-- The named type that a constant belongs to. -/
def ConstDecl.enumType? (c : ConstDecl) : Option ObjectName :=
  match c.type with
  | .named ⟨some package, name, _, _⟩ => some ⟨package, name⟩
  | _ => none

namespace StructTags

/-- Whether an entry of the key is a lone dash. -/
def isDash (t : StructTags) (key : String) : Bool :=
  match t.get? key with
  | some tag => tag.name == "-" && tag.options.isEmpty
  | none => false

/-- Whether the tags leave their field out. -/
def isIgnored (t : StructTags) : Bool := t.isDash "json" || t.isDash "typescript"

/-- The name that the tags give to their field. -/
def rename? (t : StructTags) : Option String :=
  match t.get? "json" with
  | some tag => if tag.name = "" then none else some tag.name
  | none => none

/-- Whether the field may be missing. -/
def isOptional (t : StructTags) : Bool :=
  match t.get? "json" with
  | some tag => tag.hasOption "omitempty" || tag.hasOption "omitzero"
  | none => false

end StructTags

/-- What one field adds to a record. -/
structure FieldPart where
  parents : List Expr := []
  members : List Property := []
  typeParams : List TypeParameter := []
  comments : List Comment := []

/-- The type behind a pointer, or the type itself. -/
def SourceType.pointee : SourceType → SourceType
  | .pointer elem => elem
  | t => t

namespace Workspace

variable (w : Workspace)

/-- An embedded field that keeps its name makes the record extend its type. -/
def embeddedPart (f : Field) : Mapping FieldPart := do
  let mapped ← w.mapType f.type.pointee
  return {
    parents := match mapped.value with
      | .reference name args => [.reference name args]
      | _ => []
    typeParams := mapped.typeParams
    comments := raisedComments mapped.raised }

/-- A visible field makes a member; what is unexported or ignored is left out unmapped. -/
def memberPart (f : Field) (tags : StructTags) : Mapping FieldPart :=
  if !f.isExported || tags.isIgnored then pure {}
  else do
    let mapped ← w.mapType f.type
    return {
      members := [{
        name := tags.rename?.getD f.name
        modifiers := []
        optional := tags.isOptional
        type := mapped.value
        comments := docComments f.doc ++ raisedComments mapped.raised }]
      typeParams := mapped.typeParams }

/-- What a field of the named owner adds to its record. -/
def fieldPart (owner : String) (f : Field) : Mapping FieldPart :=
  match StructTags.parse f.tag with
  | .error e => Mapping.fail (.structTag owner f.name e)
  | .ok tags =>
      if f.embedded && tags.rename?.isNone then w.embeddedPart f else w.memberPart f tags

/-- What several fields add, in order. -/
def fieldParts (owner : String) : List Field → Mapping (List FieldPart)
  | [] => pure []
  | f :: rest => do
      let part ← w.fieldPart owner f
      return part :: (← fieldParts owner rest)

/-- The declared type parameters, mapped in order. -/
def declaredParams : List TypeParamDecl → Mapping (List TypeParameter)
  | [] => pure []
  | p :: rest => do
      let mapped ← w.mapType (.typeParam p.name p.constraint)
      return mapped.typeParams ++ (← declaredParams rest)

/-- The declaration of an alias of a mapped type. -/
def aliasOf (p : Package) (d : TypeDecl) (params : List TypeParameter) (mapped : MappedType) :
    Declaration where
  source := p.sourceOf d.position
  comments := docComments d.doc ++ raisedComments mapped.raised
  form := .typeAlias (w.identifier p.path d.name) params mapped.value

/-- An alias with all the parameters that it declares or mentions. -/
def genericAlias (p : Package) (d : TypeDecl) (params : List TypeParameter)
    (mapped : Mapping MappedType) : Mapping Emission := do
  let mapped ← mapped
  let params ← Mapping.ofExcept (TypeParameter.simplify (params ++ mapped.typeParams))
  return .define (w.identifier p.path d.name).emitted (w.aliasOf p d params mapped)

/-- The single embedded element of a constraint interface as a union. -/
def asUnion (mapped : MappedType) : MappedType :=
  match mapped.value with
  | .union _ => mapped
  | value => { mapped with value := .union [value] }

/-- A record of the fields of a struct. -/
def recordOf (p : Package) (d : TypeDecl) (params : List TypeParameter) (fields : List Field) :
    Mapping Emission := do
  let parts ← w.fieldParts (p.path ++ "." ++ d.name) fields
  let params ← Mapping.ofExcept
    (TypeParameter.simplify (params ++ parts.flatMap FieldPart.typeParams))
  let parents := parts.flatMap FieldPart.parents
  let heritage : List Heritage := if parents.isEmpty then [] else [⟨.extending, parents⟩]
  let name := w.identifier p.path d.name
  return .define name.emitted {
    source := p.sourceOf d.position
    comments := docComments d.doc ++ parts.flatMap FieldPart.comments
    form := .record name params heritage (parts.flatMap FieldPart.members) }

/-- Declares a type by the form of its underlying type, given its declared parameters. -/
def declareAs (p : Package) (d : TypeDecl) (params : List TypeParameter) :
    SourceType → Mapping Emission
  | .struct fields => w.recordOf p d params fields
  | .basic kind => do
      let mapped ← w.mapType (.basic kind)
      return .fill (w.identifier p.path d.name).emitted (w.aliasOf p d [] mapped)
  | .interface [] _ => pure .nothing
  | .interface [constraint] _ =>
      w.genericAlias p d params do return asUnion (← w.mapType constraint)
  | .interface embeddeds methods =>
      let described := SourceType.describe (.interface embeddeds methods)
      Mapping.fail (.unsupportedType described .manyEmbedded)
  | .signature => pure .nothing
  | .map key value => w.genericAlias p d params (w.mapType (.map key value))
  | .slice elem => w.genericAlias p d params (w.mapType (.slice elem))
  | .array length elem => w.genericAlias p d params (w.mapType (.array length elem))
  | .named type => w.genericAlias p d params (w.mapType (.named type))
  | .pointer elem => w.genericAlias p d params (w.mapType (.pointer elem))
  | other => Mapping.fail (.unsupportedType other.describe .underlying)

/-- Declares a type. -/
def declareType (p : Package) (d : TypeDecl) : Mapping Emission := do
  w.declareAs p d (← w.declaredParams d.typeParams) d.underlying

/-- What a named type stands for: by itself, or by its declaration in its package. -/
def underlying? (owner : Package) (named : NamedType) : Option SourceType :=
  match named.underlying with
  | some t => some t
  | none =>
      match owner.lookup named.name with
      | some (.typeName d) => some d.underlying
      | _ => none

/-- Enum members belong to named basic types only. -/
def checkEnumType (owner : Package) (named : NamedType) : Except Error Unit :=
  match underlying? owner named with
  | some (.basic _) => .ok ()
  | some other => .error (.unsupportedType
      (named.qualifiedName ++ " (" ++ other.describe ++ ")") .constantType)
  | none => .error (.unsupportedType named.qualifiedName .undeclaredConstantType)

/-- Declares a constant of a named type as a member of that type's enum. -/
def declareMember (c : ConstDecl) (named : NamedType) : Mapping Emission :=
  match named.package with
  | none => Mapping.fail (.unsupportedType named.name .universeConstant)
  | some path =>
      match w.packages.get? path with
      | none => pure .nothing
      | some owner =>
          if w.isIgnored path named.name then pure .nothing
          else do
            Mapping.ofExcept (checkEnumType owner named)
            Mapping.ask (.reference ⟨path, named.name⟩)
            return .member (w.identifier path named.name).emitted
              { name := c.name, value := some (.literal c.value.literal),
                comments := docComments c.doc }

/-- Declares a constant. -/
def declareConst (p : Package) (c : ConstDecl) : Mapping Emission :=
  match c.type with
  | .named named => w.declareMember c named
  | .basic _ =>
      let name := w.identifier p.path c.name
      pure (.define name.emitted {
        source := p.sourceOf c.position
        comments := docComments c.doc
        form := .constant name none (.literal c.value.literal) })
  | other => Mapping.fail (.unsupportedType other.describe .constantType)

/-- Declares an object of a package. -/
def declare (p : Package) : Object → Mapping Emission
  | .typeName d => w.declareType p d
  | .const c => w.declareConst p c
  | .var _ => pure .nothing
  | .func _ => pure .nothing

end Workspace

end TypeBridge
