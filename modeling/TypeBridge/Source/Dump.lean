import TypeBridge.Json.Basic
import TypeBridge.Source.Basic

/-!
The dump format: a program as a JSON tree. A record is an object of its fields, in any order and
with unknown members ignored, or an array of its fields in their order; fields with a default may be
left out. A type or an object is a record with a member `kind` that says which. Decoding and
encoding are functions of the tree.
-/

namespace TypeBridge

/-- The members of a record, found by name. -/
abbrev Members := String → Option Json

namespace Json

/-- Whether one of the names belongs to two members. -/
def repeats (names : List String) (members : List (String × Json)) : Bool :=
  names.any fun name => 1 < (members.filter (fun member => member.1 == name)).length

/-- Reads a record with the given fields. -/
def members (names : List String) : Json → Except ReadError Members
  | .object members =>
      if repeats names members then .error .shape else .ok fun name => members.lookup name
  | .array items =>
      if names.length < items.length then .error .shape
      else .ok fun name => (names.zip items).lookup name
  | _ => .error .shape

/-- Separates the member `kind` from the rest of a record; in an array it comes first. -/
def tagged : Json → Except ReadError (Json × Json)
  | .object members =>
      match members.filter (fun member => member.1 == "kind") with
      | [(_, tag)] => .ok (tag, .object (members.filter (fun member => member.1 != "kind")))
      | _ => .error .shape
  | .array (tag :: rest) => .ok (tag, .array rest)
  | _ => .error .shape

def asString : Json → Except ReadError String
  | .string value => .ok value
  | _ => .error .shape

def asBool : Json → Except ReadError Bool
  | .bool value => .ok value
  | _ => .error .shape

/-- A natural number below a bound. -/
def asNatBelow (bound : Nat) : Json → Except ReadError Nat
  | .integer value => if 0 ≤ value ∧ value < bound then .ok value.toNat else .error .shape
  | _ => .error .shape

def asArray : Json → Except ReadError (List Json)
  | .array items => .ok items
  | _ => .error .shape

/-- Decodes every item of an array. -/
def asList {α : Type} (decode : Json → Except ReadError α) (j : Json) :
    Except ReadError (List α) := do
  (← j.asArray).mapM decode

/-- Decodes a value that may be null. -/
def asOption {α : Type} (decode : Json → Except ReadError α) : Json → Except ReadError (Option α)
  | .null => .ok none
  | j => (decode j).map some

end Json

namespace Members

/-- A field that has to be there. -/
def required {α : Type} (m : Members) (name : String) (decode : Json → Except ReadError α) :
    Except ReadError α :=
  match m name with
  | some j => decode j
  | none => .error .shape

/-- A field that may be left out. -/
def defaulted {α : Type} (m : Members) (name : String) (default : α)
    (decode : Json → Except ReadError α) : Except ReadError α :=
  match m name with
  | some j => decode j
  | none => .ok default

end Members

namespace Position

def ofJson (j : Json) : Except ReadError Position := do
  let m ← j.members ["file", "line"]
  return {
    file := ← m.required "file" Json.asString
    line := .ofNat (← m.defaulted "line" 0 (Json.asNatBelow UInt32.size)) }

def toJson (p : Position) : Json :=
  .object [("file", .string p.file), ("line", .integer p.line.toNat)]

end Position

namespace DocComment

def ofJson (j : Json) : Except ReadError DocComment := do
  let m ← j.members ["text", "trailing"]
  return {
    text := ← m.required "text" Json.asString
    trailing := ← m.defaulted "trailing" false Json.asBool }

def toJson (c : DocComment) : Json :=
  .object [("text", .string c.text), ("trailing", .bool c.trailing)]

end DocComment

namespace BasicKind

def ofKindName (s : String) : Except ReadError BasicKind :=
  match ofName? s with
  | some kind => .ok kind
  | none => .error .shape

/-- A kind is a string, or an object with that string as its only name and nothing in it. -/
def ofJson : Json → Except ReadError BasicKind
  | .string s => ofKindName s
  | .object [(s, .null)] => ofKindName s
  | .object [(s, .object [])] => ofKindName s
  | _ => .error .shape

def toJson (kind : BasicKind) : Json := .string kind.name

end BasicKind

namespace ConstValue

/-- The first form that fits: an integer beyond the range of integers is a floating-point number. -/
def ofJson : Json → Except ReadError ConstValue
  | .bool value => .ok (.bool value)
  | .integer value =>
      if Int64.minValue.toInt ≤ value ∧ value ≤ Int64.maxValue.toInt then .ok (.int (.ofInt value))
      else .ok (.float (Double.ofQuotient (value < 0) value.natAbs 1))
  | .float value => .ok (.float value)
  | .string value => .ok (.string value)
  | _ => .error .shape

/-- A number that is not finite has no form in JSON and is written as null. -/
def toJson : ConstValue → Json
  | .bool value => .bool value
  | .int value => .integer value.toInt
  | .float value => if value.isFinite then .float value else .null
  | .string value => .string value

end ConstValue

namespace NamedOf

variable {τ : Type}

def ofJson (decode : Json → Except ReadError τ) (j : Json) : Except ReadError (NamedOf τ) := do
  let m ← j.members ["package", "name", "type_args", "underlying"]
  return {
    package := ← m.defaulted "package" none (Json.asOption Json.asString)
    name := ← m.required "name" Json.asString
    typeArgs := ← m.defaulted "type_args" [] (Json.asList decode)
    underlying := ← m.defaulted "underlying" none (Json.asOption decode) }

end NamedOf

namespace FieldOf

variable {τ : Type}

def ofJson (decode : Json → Except ReadError τ) (j : Json) : Except ReadError (FieldOf τ) := do
  let m ← j.members ["name", "type", "embedded", "tag", "doc"]
  return {
    name := ← m.required "name" Json.asString
    type := ← m.required "type" decode
    embedded := ← m.defaulted "embedded" false Json.asBool
    tag := ← m.defaulted "tag" "" Json.asString
    doc := ← m.defaulted "doc" [] (Json.asList DocComment.ofJson) }

end FieldOf

namespace TermOf

variable {τ : Type}

def ofJson (decode : Json → Except ReadError τ) (j : Json) : Except ReadError (TermOf τ) := do
  let m ← j.members ["tilde", "type"]
  return {
    tilde := ← m.defaulted "tilde" false Json.asBool
    type := ← m.required "type" decode }

end TermOf

namespace SourceType

/-- The kinds of types; a kind may also be given by its place in this list. -/
def kinds : List String :=
  ["basic", "named", "pointer", "slice", "array", "map", "struct", "interface", "union",
   "type_param", "signature", "chan"]

def kindOf : Json → Except ReadError String
  | .string kind => .ok kind
  | .integer place =>
      match if 0 ≤ place then kinds[place.toNat]? else none with
      | some kind => .ok kind
      | none => .error .shape
  | _ => .error .shape

/-- Decodes the record of one kind of type, given how to decode the types inside it. -/
def ofRecord (decode : Json → Except ReadError SourceType) (kind : String) (j : Json) :
    Except ReadError SourceType :=
  match kind with
  | "basic" => do
      let m ← j.members ["name"]
      return .basic (← m.required "name" BasicKind.ofJson)
  | "named" => do return .named (← NamedOf.ofJson decode j)
  | "pointer" => do
      let m ← j.members ["elem"]
      return .pointer (← m.required "elem" decode)
  | "slice" => do
      let m ← j.members ["elem"]
      return .slice (← m.required "elem" decode)
  | "array" => do
      let m ← j.members ["len", "elem"]
      let length ← m.required "len" (Json.asNatBelow UInt64.size)
      return .array (.ofNat length) (← m.required "elem" decode)
  | "map" => do
      let m ← j.members ["key", "value"]
      let key ← m.required "key" decode
      return .map key (← m.required "value" decode)
  | "struct" => do
      let m ← j.members ["fields"]
      return .struct (← m.defaulted "fields" [] (Json.asList (FieldOf.ofJson decode)))
  | "interface" => do
      let m ← j.members ["embeddeds", "methods"]
      let embeddeds ← m.defaulted "embeddeds" [] (Json.asList decode)
      return .interface embeddeds (← m.defaulted "methods" [] (Json.asList Json.asString))
  | "union" => do
      let m ← j.members ["terms"]
      return .union (← m.required "terms" (Json.asList (TermOf.ofJson decode)))
  | "type_param" => do
      let m ← j.members ["name", "constraint"]
      let name ← m.required "name" Json.asString
      return .typeParam name (← m.required "constraint" decode)
  | "signature" => do
      let _ ← j.members []
      return .signature
  | "chan" => do
      let m ← j.members ["elem"]
      return .chan (← m.required "elem" decode)
  | _ => .error .shape

/-- Decodes a type whose tree has at most the given depth. -/
def ofJsonWithin : Nat → Json → Except ReadError SourceType
  | 0, _ => .error .shape
  | depth + 1, j => do
      let (tag, record) ← j.tagged
      ofRecord (ofJsonWithin depth) (← kindOf tag) record

def ofJson (j : Json) : Except ReadError SourceType := ofJsonWithin j.depth j

mutual

/-- A type with every field of its record. -/
def toJson : SourceType → Json
  | .basic kind => .object [("kind", .string "basic"), ("name", kind.toJson)]
  | .named ⟨package, name, typeArgs, underlying⟩ =>
      .object [("kind", .string "named"),
        ("package", match package with | some path => .string path | none => .null),
        ("name", .string name), ("type_args", .array (toJsonList typeArgs)),
        ("underlying", toJsonOption underlying)]
  | .pointer elem => .object [("kind", .string "pointer"), ("elem", toJson elem)]
  | .slice elem => .object [("kind", .string "slice"), ("elem", toJson elem)]
  | .array length elem =>
      .object [("kind", .string "array"), ("len", .integer length.toNat), ("elem", toJson elem)]
  | .map key value =>
      .object [("kind", .string "map"), ("key", toJson key), ("value", toJson value)]
  | .struct fields =>
      .object [("kind", .string "struct"), ("fields", .array (toJsonFields fields))]
  | .interface embeddeds methods =>
      .object [("kind", .string "interface"), ("embeddeds", .array (toJsonList embeddeds)),
        ("methods", .array (methods.map .string))]
  | .union terms => .object [("kind", .string "union"), ("terms", .array (toJsonTerms terms))]
  | .typeParam name constraint =>
      .object [("kind", .string "type_param"), ("name", .string name),
        ("constraint", toJson constraint)]
  | .signature => .object [("kind", .string "signature")]
  | .chan elem => .object [("kind", .string "chan"), ("elem", toJson elem)]

def toJsonList : List SourceType → List Json
  | [] => []
  | type :: rest => toJson type :: toJsonList rest

def toJsonOption : Option SourceType → Json
  | none => .null
  | some type => toJson type

def toJsonFields : List (FieldOf SourceType) → List Json
  | [] => []
  | ⟨name, type, embedded, tag, doc⟩ :: rest =>
      .object [("name", .string name), ("type", toJson type), ("embedded", .bool embedded),
        ("tag", .string tag), ("doc", .array (doc.map DocComment.toJson))] :: toJsonFields rest

def toJsonTerms : List (TermOf SourceType) → List Json
  | [] => []
  | ⟨tilde, type⟩ :: rest =>
      .object [("tilde", .bool tilde), ("type", toJson type)] :: toJsonTerms rest

end

end SourceType

namespace TypeParamDecl

def ofJson (j : Json) : Except ReadError TypeParamDecl := do
  let m ← j.members ["name", "constraint"]
  return {
    name := ← m.required "name" Json.asString
    constraint := ← m.required "constraint" SourceType.ofJson }

def toJson (p : TypeParamDecl) : Json :=
  .object [("name", .string p.name), ("constraint", p.constraint.toJson)]

end TypeParamDecl

/-- An optional position, null when it is missing. -/
def positionJson : Option Position → Json
  | some position => position.toJson
  | none => .null

namespace Object

def ofTypeRecord (j : Json) : Except ReadError TypeDecl := do
  let m ← j.members ["name", "type_params", "underlying", "doc", "position"]
  return {
    name := ← m.required "name" Json.asString
    typeParams := ← m.defaulted "type_params" [] (Json.asList TypeParamDecl.ofJson)
    underlying := ← m.required "underlying" SourceType.ofJson
    doc := ← m.defaulted "doc" [] (Json.asList DocComment.ofJson)
    position := ← m.defaulted "position" none (Json.asOption Position.ofJson) }

def ofConstRecord (j : Json) : Except ReadError ConstDecl := do
  let m ← j.members ["name", "type", "value", "doc", "position"]
  return {
    name := ← m.required "name" Json.asString
    type := ← m.required "type" SourceType.ofJson
    value := ← m.required "value" ConstValue.ofJson
    doc := ← m.defaulted "doc" [] (Json.asList DocComment.ofJson)
    position := ← m.defaulted "position" none (Json.asOption Position.ofJson) }

def ofValueRecord (j : Json) : Except ReadError ValueDecl := do
  let m ← j.members ["name", "position"]
  return {
    name := ← m.required "name" Json.asString
    position := ← m.defaulted "position" none (Json.asOption Position.ofJson) }

/-- The kinds of objects. -/
def kinds : List String := ["type_name", "const", "var", "func"]

def ofJson (j : Json) : Except ReadError Object := do
  let (tag, record) ← j.tagged
  match tag with
  | .string "type_name" => return .typeName (← ofTypeRecord record)
  | .string "const" => return .const (← ofConstRecord record)
  | .string "var" => return .var (← ofValueRecord record)
  | .string "func" => return .func (← ofValueRecord record)
  | _ => throw .shape

def toJson : Object → Json
  | .typeName decl =>
      .object [("kind", .string "type_name"), ("name", .string decl.name),
        ("type_params", .array (decl.typeParams.map TypeParamDecl.toJson)),
        ("underlying", decl.underlying.toJson),
        ("doc", .array (decl.doc.map DocComment.toJson)),
        ("position", positionJson decl.position)]
  | .const decl =>
      .object [("kind", .string "const"), ("name", .string decl.name),
        ("type", decl.type.toJson), ("value", decl.value.toJson),
        ("doc", .array (decl.doc.map DocComment.toJson)),
        ("position", positionJson decl.position)]
  | .var decl =>
      .object [("kind", .string "var"), ("name", .string decl.name),
        ("position", positionJson decl.position)]
  | .func decl =>
      .object [("kind", .string "func"), ("name", .string decl.name),
        ("position", positionJson decl.position)]

end Object

namespace PackageMode

def ofModeName (s : String) : Except ReadError PackageMode :=
  if s = "generate" then .ok .generate
  else if s = "reference" then .ok .reference
  else .error .shape

/-- A mode is a string, or an object with that string as its only name and null in it. -/
def ofJson : Json → Except ReadError PackageMode
  | .string s => ofModeName s
  | .object [(s, .null)] => ofModeName s
  | _ => .error .shape

def toJson (mode : PackageMode) : Json := .string mode.name

end PackageMode

namespace Package

def fieldNames : List String :=
  ["path", "name", "mode", "prefix", "objects", "comments", "errors"]

def ofJson (j : Json) : Except ReadError Package := do
  let m ← j.members fieldNames
  return {
    path := ← m.required "path" Json.asString
    name := ← m.required "name" Json.asString
    mode := ← m.defaulted "mode" .generate PackageMode.ofJson
    namePrefix := ← m.defaulted "prefix" "" Json.asString
    objects := ← m.defaulted "objects" [] (Json.asList Object.ofJson)
    comments := ← m.defaulted "comments" [] (Json.asList Json.asString)
    errors := ← m.defaulted "errors" [] (Json.asList Json.asString) }

def toJson (p : Package) : Json :=
  .object [("path", .string p.path), ("name", .string p.name), ("mode", p.mode.toJson),
    ("prefix", .string p.namePrefix), ("objects", .array (p.objects.map Object.toJson)),
    ("comments", .array (p.comments.map .string)), ("errors", .array (p.errors.map .string))]

end Package

namespace Program

def fieldNames : List String := ["packages"]

def ofJson (j : Json) : Except ReadError Program := do
  let m ← j.members fieldNames
  return { packages := ← m.required "packages" (Json.asList Package.ofJson) }

def toJson (p : Program) : Json := .object [("packages", .array (p.packages.map Package.toJson))]

end Program

end TypeBridge
