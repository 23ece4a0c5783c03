import TypeBridge.Builtin
import TypeBridge.Generics
import TypeBridge.Marks
import TypeBridge.Workspace

/-!
Go types as TypeScript expressions. Mapping a type does not look at what was converted before: what
it asks of its surroundings, namely references to generate, builtins to supply and events to report,
is listed beside its result. An override that stands for another Go type is no longer in force while
that type is mapped, so every mapping comes to an end.
-/

namespace TypeBridge

/-- What mapping a type asks of its surroundings. -/
inductive Effect where
  | reference (object : ObjectName)
  | require (builtin : Builtin)
  | report (event : Event)
deriving DecidableEq

/-- A result together with what its computation asked for, also when it failed. -/
structure Mapping (α : Type) where
  effects : List Effect
  result : Except Error α

namespace Mapping

variable {α β : Type}

def pure (a : α) : Mapping α := ⟨[], .ok a⟩

def bind (m : Mapping α) (f : α → Mapping β) : Mapping β :=
  match m.result with
  | .error e => ⟨m.effects, .error e⟩
  | .ok a => ⟨m.effects ++ (f a).effects, (f a).result⟩

instance : Monad Mapping where
  pure := Mapping.pure
  bind := Mapping.bind

def fail (e : Error) : Mapping α := ⟨[], .error e⟩

def ask (effect : Effect) : Mapping Unit := ⟨[effect], .ok ()⟩

/-- A computation that asks for nothing. -/
def ofExcept (r : Except Error α) : Mapping α := ⟨[], r⟩

end Mapping

/-- A mapped type, with the type parameters it mentions and the comments for its owner. -/
structure MappedType where
  value : Expr
  typeParams : List TypeParameter := []
  raised : List String := []
deriving Inhabited

namespace MappedType

def plain (value : Expr) : MappedType := { value := value }

def addComment (t : MappedType) (comment : String) : MappedType :=
  { t with raised := t.raised ++ [comment] }

/-- Changes the expression and keeps what goes with it. -/
def mapValue (t : MappedType) (f : Expr → Expr) : MappedType := { t with value := f t.value }

/-- Makes one type of several, with all that goes with them. -/
def combine (parts : List MappedType) (f : List Expr → Expr) : MappedType where
  value := f (parts.map value)
  typeParams := parts.flatMap typeParams
  raised := parts.flatMap raised

/-- A type that is not mapped, and why. -/
def unknown (comment : String) : MappedType := (plain (.keyword .unknown)).addComment comment

end MappedType

/-- The primitive type of a basic kind. -/
def mapBasic (kind : BasicKind) : Except Error MappedType :=
  if kind.isNumeric then .ok (.plain (.keyword .number))
  else if kind.isBoolean then .ok (.plain (.keyword .boolean))
  else if kind.isString then .ok (.plain (.keyword .string))
  else if kind = .invalid then
    .ok ((MappedType.plain (.keyword .any)).addComment
      "Invalid type, using 'any'. Might be a reference to any external package")
  else .error (.unsupportedType kind.label .basicKind)

/-- Whether a slice or an array of these elements is written as a list of strings. -/
def SourceType.isByte : SourceType → Bool
  | .basic .byte => true
  | _ => false

/-- The constraint of a type parameter that is known without mapping it. -/
def knownConstraint? : SourceType → Option (Mapping Expr)
  | .named ⟨none, "comparable", _, _⟩ => some do
      Mapping.ask (.require .comparable)
      return Builtin.comparable.reference
  | .named ⟨none, "any", _, _⟩ => some (Mapping.pure (.keyword .any))
  | .interface [] [] => some (Mapping.pure (.keyword .any))
  | .interface [] (method :: methods) => some (Mapping.fail
      (.unsupportedType (SourceType.describe (.interface [] (method :: methods))) .constraint))
  | _ => none

/-- Announces a reference to a declared object; one of a reference package is worth a report. -/
def announce (package : Package) (o : ObjectName) : Mapping Unit := do
  Mapping.ask (.reference o)
  if package.mode = .reference then
    Mapping.ask (.report (.externalType o.name o.package))

mutual

/-- Maps a type, given what the overrides say about a qualified name. -/
def mapWith (w : Workspace) (overridden : String → Option (Mapping MappedType)) :
    SourceType → Mapping MappedType
  | .basic kind => Mapping.ofExcept (mapBasic kind)
  | .struct _ => pure (.unknown "embedded anonymous struct, please fix by naming it")
  | .map key value => do
      let key ← mapWith w overridden key
      let value ← mapWith w overridden value
      let mapped := MappedType.combine [key, value] (.builtin recordName)
      let params ← Mapping.ofExcept (TypeParameter.simplify mapped.typeParams)
      return { mapped with typeParams := params }
  | .slice elem =>
      if elem.isByte then pure (.plain (.array (.keyword .string)))
      else do return (← mapWith w overridden elem).mapValue .array
  | .array _ elem =>
      if elem.isByte then pure (.plain (.array (.keyword .string)))
      else do return (← mapWith w overridden elem).mapValue .array
  | .named ⟨package, name, typeArgs, underlying⟩ =>
      match overridden (qualifiedName package name) with
      | some mapped => mapped
      | none =>
          match package with
          | none =>
              if name = "any" then pure (.plain (.keyword .any))
              else if name = "comparable" then do
                Mapping.ask (.require .comparable)
                return .plain Builtin.comparable.reference
              else mapForeign w overridden (qualifiedName none name) underlying
          | some path =>
              match w.find? path name with
              | none => mapForeign w overridden (qualifiedName (some path) name) underlying
              | some (owner, _) => do
                  announce owner ⟨path, name⟩
                  let args ← mapList w overridden typeArgs
                  return MappedType.combine args (.reference (w.identifier path name))
  | .pointer elem => do return (← mapWith w overridden elem).mapValue .nullable
  | .interface [] [] => pure (.unknown "empty interface\x7b\x7d type, falling back to unknown")
  | .interface [embedded] _ => mapWith w overridden embedded
  | .interface _ _ => pure (.unknown "interface type, falling back to unknown")
  | .union terms => do
      return MappedType.combine (← mapTerms w overridden terms) .union
  | .typeParam name constraint => do
      let bound ← match knownConstraint? constraint with
        | some known => known
        | none => do
            let mapped ← mapWith w overridden constraint
            pure mapped.value
      return {
        value := .reference { name := name } []
        typeParams := [{ name := { name := name }, constraint := some bound }] }
  | .signature => Mapping.fail (.unsupportedType (SourceType.describe .signature) .signature)
  | .chan elem => Mapping.fail (.unsupportedType (SourceType.describe (.chan elem)) .channel)

/-- Maps several types in order. -/
def mapList (w : Workspace) (overridden : String → Option (Mapping MappedType)) :
    List SourceType → Mapping (List MappedType)
  | [] => pure []
  | t :: rest => do
      let mapped ← mapWith w overridden t
      return mapped :: (← mapList w overridden rest)

/-- Maps the terms of a union in order. -/
def mapTerms (w : Workspace) (overridden : String → Option (Mapping MappedType)) :
    List (TermOf SourceType) → Mapping (List MappedType)
  | [] => pure []
  | ⟨_, t⟩ :: rest => do
      let mapped ← mapWith w overridden t
      return mapped :: (← mapTerms w overridden rest)

/-- Maps a named type of a package that is not converted, by what it stands for. -/
def mapForeign (w : Workspace) (overridden : String → Option (Mapping MappedType))
    (qualified : String) : Option SourceType → Mapping MappedType
  | none => Mapping.fail (.unsupportedType qualified .foreignUnknown)
  | some (.struct _) => pure (.unknown
      ("external type " ++ Text.quoted qualified ++
        ", to include this type the package must be explicitly included in the parsing"))
  | some t => do
      return (← mapWith w overridden t).addComment
        ("this is likely an enum in an external package " ++ Text.quoted qualified)

end

/-- Maps a type with the given overrides in force. -/
def mapType (w : Workspace) (inForce : Keyed TypeOverride) (t : SourceType) : Mapping MappedType :=
  mapWith w (fun key =>
    match _h : inForce.get? key with
    | none => none
    | some (.expression e) => some (pure (.plain e))
    | some (.type other) => some (mapType w (inForce.erase key) other)) t
termination_by inForce.size
decreasing_by exact inForce.length_erase_lt _h

/-- Maps a type with all overrides in force. -/
def Workspace.mapType (w : Workspace) (t : SourceType) : Mapping MappedType :=
  TypeBridge.mapType w w.overrides t

end TypeBridge
