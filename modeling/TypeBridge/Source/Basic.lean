import TypeBridge.Double
import TypeBridge.Text.Basic
import TypeBridge.Text.Uppercase

/-!
A snapshot of Go packages as a type checker sees them. Every type is resolved: a declaration carries
its underlying type, and a reference to a declared type names its package, its arguments and, for
types outside the snapshot, what it stands for.
-/

namespace TypeBridge

/-- The basic types, with the spellings `byte` and `rune` kept apart, and the types of constants
that were given none. -/
inductive BasicKind where
  | bool | int | int8 | int16 | int32 | int64
  | uint | uint8 | uint16 | uint32 | uint64 | uintptr
  | float32 | float64 | complex64 | complex128
  | string | byte | rune | unsafePointer
  | untypedBool | untypedInt | untypedRune | untypedFloat | untypedString | untypedNil
  | invalid
deriving DecidableEq, Repr, Inhabited

namespace BasicKind

def all : List BasicKind :=
  [bool, int, int8, int16, int32, int64, uint, uint8, uint16, uint32, uint64, uintptr,
   float32, float64, complex64, complex128, string, byte, rune, unsafePointer,
   untypedBool, untypedInt, untypedRune, untypedFloat, untypedString, untypedNil, invalid]

/-- The name of a kind in a dump. -/
def name : BasicKind → String
  | bool => "bool" | int => "int" | int8 => "int8" | int16 => "int16" | int32 => "int32"
  | int64 => "int64" | uint => "uint" | uint8 => "uint8" | uint16 => "uint16"
  | uint32 => "uint32" | uint64 => "uint64" | uintptr => "uintptr"
  | float32 => "float32" | float64 => "float64"
  | complex64 => "complex64" | complex128 => "complex128"
  | string => "string" | byte => "byte" | rune => "rune" | unsafePointer => "unsafe_pointer"
  | untypedBool => "untyped_bool" | untypedInt => "untyped_int" | untypedRune => "untyped_rune"
  | untypedFloat => "untyped_float" | untypedString => "untyped_string"
  | untypedNil => "untyped_nil" | invalid => "invalid"

def ofName? (s : String) : Option BasicKind := all.find? (fun kind => kind.name == s)

/-- The name of a kind in messages. -/
def label : BasicKind → String
  | unsafePointer => "unsafepointer"
  | untypedBool => "untypedbool" | untypedInt => "untypedint" | untypedRune => "untypedrune"
  | untypedFloat => "untypedfloat" | untypedString => "untypedstring" | untypedNil => "untypednil"
  | kind => kind.name

/-- Whether a kind can be written in a program. -/
def isSpelled : BasicKind → Bool
  | unsafePointer | untypedBool | untypedInt | untypedRune | untypedFloat | untypedString
  | untypedNil | invalid => false
  | _ => true

/-- The kind that a word of a program names. -/
def ofSpelling? (s : String) : Option BasicKind :=
  all.find? (fun kind => kind.isSpelled && kind.name == s)

def isNumeric : BasicKind → Bool
  | int | int8 | int16 | int32 | int64 | uint | uint8 | uint16 | uint32 | uint64 | uintptr
  | float32 | float64 | complex64 | complex128 | byte | rune
  | untypedInt | untypedRune | untypedFloat => true
  | _ => false

def isBoolean : BasicKind → Bool
  | bool | untypedBool => true
  | _ => false

def isString : BasicKind → Bool
  | string | untypedString => true
  | _ => false

end BasicKind

/-- Where an object was declared. -/
structure Position where
  file : String
  line : UInt32 := 0
deriving DecidableEq, Inhabited

/-- The file name after the last slash of either kind. -/
def Position.baseName (p : Position) : String :=
  String.ofList (p.file.toList.reverse.takeWhile (fun c => c != '/' && c != '\\')).reverse

/-- A comment of the source with its markers; a trailing one follows its declaration on the line. -/
structure DocComment where
  text : String
  trailing : Bool := false
deriving DecidableEq, Inhabited

/-- A reference to a declared type, possibly instantiated. A type without a package belongs to the
universe. The underlying type may be missing for types of the snapshot. -/
structure NamedOf (τ : Type) where
  package : Option String
  name : String
  typeArgs : List τ
  underlying : Option τ
deriving Inhabited

/-- `path/to/pkg.Name`, under which overrides are registered. -/
def qualifiedName (package : Option String) (name : String) : String :=
  match package with
  | some path => path ++ "." ++ name
  | none => name

def NamedOf.qualifiedName {τ : Type} (n : NamedOf τ) : String :=
  TypeBridge.qualifiedName n.package n.name

/-- A struct field with its raw tag. -/
structure FieldOf (τ : Type) where
  name : String
  type : τ
  embedded : Bool
  tag : String
  doc : List DocComment
deriving Inhabited

/-- A field is visible outside its package when its name starts with a capital. -/
def FieldOf.isExported {τ : Type} (f : FieldOf τ) : Bool :=
  match f.name.toList with
  | [] => false
  | first :: _ => Text.isUppercase first

/-- One term of a constraint union; with a tilde it stands for all types with that underlying. -/
structure TermOf (τ : Type) where
  tilde : Bool
  type : τ
deriving Inhabited

/-- A resolved type. -/
inductive SourceType where
  | basic (kind : BasicKind)
  | named (type : NamedOf SourceType)
  | pointer (elem : SourceType)
  | slice (elem : SourceType)
  | array (length : UInt64) (elem : SourceType)
  | map (key value : SourceType)
  | struct (fields : List (FieldOf SourceType))
  | interface (embeddeds : List SourceType) (methods : List String)
  | union (terms : List (TermOf SourceType))
  | typeParam (name : String) (constraint : SourceType)
  | signature
  | chan (elem : SourceType)
deriving Inhabited

abbrev NamedType := NamedOf SourceType

abbrev Field := FieldOf SourceType

abbrev Term := TermOf SourceType

namespace SourceType

/-- The interface that every type satisfies. -/
def emptyInterface : SourceType := .interface [] []

mutual

/-- A short description of a type for messages. -/
def describe : SourceType → String
  | .basic kind => kind.label
  | .named ⟨package, name, _, _⟩ => qualifiedName package name
  | .pointer elem => "*" ++ describe elem
  | .slice elem => "[]" ++ describe elem
  | .array length elem => "[" ++ Text.digitString length.toNat ++ "]" ++ describe elem
  | .map key value => "map[" ++ describe key ++ "]" ++ describe value
  | .struct _ => "struct\x7b...\x7d"
  | .interface _ _ => "interface\x7b...\x7d"
  | .union terms => String.intercalate " | " (describeTerms terms)
  | .typeParam name _ => name
  | .signature => "func(...)"
  | .chan elem => "chan " ++ describe elem

def describeTerms : List (TermOf SourceType) → List String
  | [] => []
  | ⟨tilde, type⟩ :: rest => ((if tilde then "~" else "") ++ describe type) :: describeTerms rest

end

end SourceType

/-- A declared type parameter. -/
structure TypeParamDecl where
  name : String
  constraint : SourceType
deriving Inhabited

structure TypeDecl where
  name : String
  typeParams : List TypeParamDecl := []
  underlying : SourceType
  doc : List DocComment := []
  position : Option Position := none
deriving Inhabited

/-- The value of a constant. -/
inductive ConstValue where
  | bool (value : Bool)
  | int (value : Int64)
  | float (value : Double)
  | string (value : String)
deriving DecidableEq, Inhabited

/-- A constant; one without a declared type carries the default type of its value. -/
structure ConstDecl where
  name : String
  type : SourceType
  value : ConstValue
  doc : List DocComment := []
  position : Option Position := none
deriving Inhabited

/-- A variable or a function, of which only the name matters. -/
structure ValueDecl where
  name : String
  position : Option Position := none
deriving Inhabited

/-- A declaration at the top level of a package. -/
inductive Object where
  | typeName (decl : TypeDecl)
  | const (decl : ConstDecl)
  | var (decl : ValueDecl)
  | func (decl : ValueDecl)
deriving Inhabited

def Object.name : Object → String
  | typeName decl => decl.name
  | const decl => decl.name
  | var decl => decl.name
  | func decl => decl.name

def Object.position : Object → Option Position
  | typeName decl => decl.position
  | const decl => decl.position
  | var decl => decl.position
  | func decl => decl.position

/-- How a package takes part in a conversion: all of it is generated, or only what the generated
packages reach. -/
inductive PackageMode where
  | generate
  | reference
deriving DecidableEq, Repr, Inhabited

def PackageMode.name : PackageMode → String
  | generate => "generate"
  | reference => "reference"

/-- A package: its import path, its name in the source, the prefix of every name generated from it,
its declarations, every comment of its files and what the type checker complained about. -/
structure Package where
  path : String
  name : String
  mode : PackageMode := .generate
  namePrefix : String := ""
  objects : List Object := []
  comments : List String := []
  errors : List String := []
deriving Inhabited

/-- The first object of a name. -/
def Package.lookup (p : Package) (name : String) : Option Object :=
  p.objects.find? (fun object => object.name == name)

/-- All packages handed to one conversion. -/
structure Program where
  packages : List Package
deriving Inhabited

end TypeBridge
