import TypeBridge.Proofs.Lockstep

/-!
The spellings of basic types. A byte is the same type as an unsigned integer of eight bits, and a
rune the same as a signed one of thirty-two. Which of its two names a type was written with shows in
the text of an error, and in one other place: a slice or an array whose elements are written `byte`
becomes a list of strings, and one whose elements are written `uint8` a list of numbers. With that
place left alone, workspaces that differ in spellings only are converted in lockstep.
-/

namespace TypeBridge

/-! ### Types without the second spellings -/

/-- A basic kind under the first of its names. -/
def BasicKind.unaliased : BasicKind → BasicKind
  | byte => uint8
  | rune => int32
  | kind => kind

namespace SourceType

mutual

/-- A type with every basic type in it under the first of its names, apart from the bytes that make
a list one of strings. -/
def unaliased : SourceType → SourceType
  | .basic kind => .basic kind.unaliased
  | .named ⟨package, name, typeArgs, underlying⟩ =>
      .named ⟨package, name, unaliasedList typeArgs, unaliasedOption underlying⟩
  | .pointer elem => .pointer (unaliased elem)
  | .slice elem => .slice (if elem.isByte then elem else unaliased elem)
  | .array length elem => .array length (if elem.isByte then elem else unaliased elem)
  | .map key value => .map (unaliased key) (unaliased value)
  | .struct fields => .struct (unaliasedFields fields)
  | .interface embeddeds methods => .interface (unaliasedList embeddeds) methods
  | .union terms => .union (unaliasedTerms terms)
  | .typeParam name constraint => .typeParam name (unaliased constraint)
  | .signature => .signature
  | .chan elem => .chan (unaliased elem)

def unaliasedList : List SourceType → List SourceType
  | [] => []
  | t :: rest => unaliased t :: unaliasedList rest

def unaliasedOption : Option SourceType → Option SourceType
  | none => none
  | some t => some (unaliased t)

def unaliasedFields : List (FieldOf SourceType) → List (FieldOf SourceType)
  | [] => []
  | ⟨name, type, embedded, tag, doc⟩ :: rest =>
      ⟨name, unaliased type, embedded, tag, doc⟩ :: unaliasedFields rest

def unaliasedTerms : List (TermOf SourceType) → List (TermOf SourceType)
  | [] => []
  | ⟨tilde, type⟩ :: rest => ⟨tilde, unaliased type⟩ :: unaliasedTerms rest

end

end SourceType

def NamedOf.unaliased (n : NamedType) : NamedType :=
  ⟨n.package, n.name, SourceType.unaliasedList n.typeArgs,
    SourceType.unaliasedOption n.underlying⟩

def TypeParamDecl.unaliased (p : TypeParamDecl) : TypeParamDecl :=
  { p with constraint := p.constraint.unaliased }

def TypeDecl.unaliased (d : TypeDecl) : TypeDecl :=
  { d with typeParams := d.typeParams.map TypeParamDecl.unaliased,
           underlying := d.underlying.unaliased }

def ConstDecl.unaliased (c : ConstDecl) : ConstDecl := { c with type := c.type.unaliased }

def Object.unaliased : Object → Object
  | .typeName d => .typeName d.unaliased
  | .const c => .const c.unaliased
  | o => o

def Package.unaliased (p : Package) : Package :=
  { p with objects := p.objects.map Object.unaliased }

def TypeOverride.unaliased : TypeOverride → TypeOverride
  | .expression e => .expression e
  | .type t => .type t.unaliased

/-- A workspace whose basic types stand under the first of their names, apart from the bytes that
make a list one of strings. Workspaces with the same one differ in spellings only. -/
def Workspace.unaliased (w : Workspace) : Workspace :=
  { w with
    packages := w.packages.mapValues fun _ p => p.unaliased
    overrides := w.overrides.mapValues fun _ o => o.unaliased
    path_eq := by
      intro entry hentry
      obtain ⟨⟨key, p⟩, hp, rfl⟩ := List.mem_map.mp hentry
      exact (w.path_eq (key, p) hp : p.path = key) }

namespace SourceType

@[simp] theorem isByte_unaliased (t : SourceType) : t.unaliased.isByte = false := by
  cases t with
  | basic kind => cases kind <;> rfl
  | _ => rfl

/-- The element of a list is a byte after the change exactly when it was one. -/
theorem isByte_element (elem : SourceType) :
    (if elem.isByte then elem else elem.unaliased).isByte = elem.isByte := by
  split
  · rfl
  · rename_i hbyte
    rw [isByte_unaliased, eq_false_of_ne_true hbyte]

theorem unaliased_pointee (t : SourceType) : t.unaliased.pointee = t.pointee.unaliased := by
  cases t <;> rfl

end SourceType

/-! ### What is looked up -/

theorem Object.name_unaliased (o : Object) : o.unaliased.name = o.name := by
  cases o <;> rfl

theorem Object.enumType?_unaliased (o : Object) : o.unaliased.enumType? = o.enumType? := by
  cases o with
  | const c =>
      obtain ⟨name, type, value, doc, position⟩ := c
      cases type with
      | named named =>
          obtain ⟨package, name, typeArgs, underlying⟩ := named
          cases package <;> rfl
      | _ => rfl
  | _ => rfl

theorem Package.lookup_unaliased (p : Package) (name : String) :
    p.unaliased.lookup name = (p.lookup name).map Object.unaliased := by
  rw [Package.lookup, Package.lookup, Package.unaliased, List.find?_map]
  congr 2
  funext o
  rw [Function.comp_apply, o.name_unaliased]

namespace Workspace

variable (w : Workspace)

theorem get?_unaliased (path : String) :
    w.unaliased.packages.get? path = (w.packages.get? path).map Package.unaliased :=
  Keyed.get?_mapValues ..

theorem find?_unaliased (path name : String) : w.unaliased.find? path name =
    (w.find? path name).map fun d => (d.1.unaliased, d.2.unaliased) := by
  simp only [find?, get?_unaliased]
  cases w.packages.get? path with
  | none => rfl
  | some p =>
      simp only [Option.map_some, bind, Option.bind_some, p.lookup_unaliased]
      cases p.lookup name <;> rfl

theorem identifier_unaliased (path name : String) :
    w.unaliased.identifier path name = w.identifier path name := by
  rw [identifier, identifier, get?_unaliased, Option.map_map]
  rfl

theorem isIgnored_unaliased (path name : String) :
    w.unaliased.isIgnored path name = w.isIgnored path name := by
  rw [isIgnored, isIgnored, get?_unaliased]
  cases w.packages.get? path with
  | none => rfl
  | some p =>
      simp only [Option.map_some, p.lookup_unaliased, Option.isSome_map]
      rfl

end Workspace

/-! ### Mapping -/

/-- Two mappings that ask for the same and give the same, or both fail. -/
abbrev Mapping.Matches {α : Type} (m m' : Mapping α) : Prop :=
  Mapping.Alike (fun _ _ => True) m m'

namespace Mapping.Matches

variable {α β : Type}

@[simp] theorem refl (m : Mapping α) : m.Matches m := .of_eq keepsErrors_any rfl

theorem fail (e e' : Error) : (Mapping.fail e : Mapping α).Matches (Mapping.fail e') :=
  Mapping.Alike.fail trivial

theorem bind {m m' : Mapping α} (h : m.Matches m') {f f' : α → Mapping β}
    (hf : ∀ a, (f a).Matches (f' a)) : (m >>= f).Matches (m' >>= f') :=
  Mapping.Alike.bind h hf

end Mapping.Matches

theorem mapBasic_unaliased (kind : BasicKind) : mapBasic kind.unaliased = mapBasic kind := by
  cases kind <;> rfl

theorem knownConstraint?_unaliased (t : SourceType) :
    knownConstraint? t.unaliased = knownConstraint? t := by
  cases t with
  | named type =>
      obtain ⟨package, name, typeArgs, underlying⟩ := type
      cases package with
      | some path => rfl
      | none =>
          by_cases hcomparable : name = "comparable"
          · rw [hcomparable]
            rfl
          · by_cases hany : name = "any"
            · rw [hany]
              rfl
            · simp [SourceType.unaliased, knownConstraint?, hcomparable, hany]
  | interface embeddeds methods => cases embeddeds <;> cases methods <;> rfl
  | _ => rfl

section Mapping

variable (w : Workspace) {overridden overridden' : String → Option (Mapping MappedType)}

mutual

/-- A type is mapped alike under its first spelling, as long as the overrides are. -/
theorem mapWith_unaliased
    (h : ∀ key, Option.Rel Mapping.Matches (overridden key) (overridden' key)) :
    ∀ t : SourceType,
      (mapWith w overridden t).Matches (mapWith w.unaliased overridden' t.unaliased)
  | .basic kind => by
      rw [SourceType.unaliased, mapWith, mapWith, mapBasic_unaliased]
      exact .refl _
  | .struct fields => by
      rw [SourceType.unaliased, mapWith, mapWith]
      exact .refl _
  | .map key value => by
      rw [SourceType.unaliased, mapWith, mapWith]
      exact (mapWith_unaliased h key).bind fun _ =>
        (mapWith_unaliased h value).bind fun _ => .refl _
  | .slice elem => by
      -- the element is looked at first, and a byte is not mapped at all
      have helem := mapWith_unaliased h elem
      rw [SourceType.unaliased, mapWith, mapWith, SourceType.isByte_element]
      split
      · exact .refl _
      · exact helem.bind fun _ => .refl _
  | .array length elem => by
      have helem := mapWith_unaliased h elem
      rw [SourceType.unaliased, mapWith, mapWith, SourceType.isByte_element]
      split
      · exact .refl _
      · exact helem.bind fun _ => .refl _
  | .named ⟨none, name, typeArgs, underlying⟩ => by
      rw [SourceType.unaliased, mapWith, mapWith]
      rcases none_or_some_of_rel (h (qualifiedName none name)) with
        ⟨hm, hm'⟩ | ⟨m, m', hm, hm', hmatch⟩
      · rw [hm, hm']
        dsimp only
        split
        · exact .refl _
        · split
          · exact .refl _
          · exact mapForeign_unaliased h _ underlying
      · rw [hm, hm']
        exact hmatch
  | .named ⟨some path, name, typeArgs, underlying⟩ => by
      rw [SourceType.unaliased, mapWith, mapWith]
      rcases none_or_some_of_rel (h (qualifiedName (some path) name)) with
        ⟨hm, hm'⟩ | ⟨m, m', hm, hm', hmatch⟩
      · rw [hm, hm', w.find?_unaliased, w.identifier_unaliased]
        cases w.find? path name with
        | none => exact mapForeign_unaliased h _ underlying
        | some d =>
            exact (Mapping.Matches.refl (announce d.1 ⟨path, name⟩)).bind fun _ =>
              (mapList_unaliased h typeArgs).bind fun _ => .refl _
      · rw [hm, hm']
        exact hmatch
  | .pointer elem => by
      rw [SourceType.unaliased, mapWith, mapWith]
      exact (mapWith_unaliased h elem).bind fun _ => .refl _
  | .interface [] [] => by
      rw [SourceType.unaliased, SourceType.unaliasedList, mapWith, mapWith]
      exact .refl _
  | .interface [] (method :: methods) => by
      rw [SourceType.unaliased, SourceType.unaliasedList, mapWith, mapWith] <;> simp
  | .interface [embedded] methods => by
      rw [SourceType.unaliased, SourceType.unaliasedList, SourceType.unaliasedList, mapWith,
        mapWith]
      exact mapWith_unaliased h embedded
  | .interface (first :: second :: rest) methods => by
      rw [SourceType.unaliased, SourceType.unaliasedList, SourceType.unaliasedList, mapWith,
        mapWith] <;> simp
  | .union terms => by
      rw [SourceType.unaliased, mapWith, mapWith]
      exact (mapTerms_unaliased h terms).bind fun _ => .refl _
  | .typeParam name constraint => by
      have hconstraint := mapWith_unaliased h constraint
      rw [SourceType.unaliased, mapWith, mapWith, knownConstraint?_unaliased]
      split
      · exact (Mapping.Matches.refl _).bind fun _ => .refl _
      · exact hconstraint.bind fun _ => .refl _
  | .signature => by
      rw [SourceType.unaliased, mapWith, mapWith]
      exact .refl _
  | .chan elem => by
      rw [SourceType.unaliased, mapWith, mapWith]
      exact .fail _ _

theorem mapList_unaliased
    (h : ∀ key, Option.Rel Mapping.Matches (overridden key) (overridden' key)) :
    ∀ ts : List SourceType, (mapList w overridden ts).Matches
      (mapList w.unaliased overridden' (SourceType.unaliasedList ts))
  | [] => by
      rw [SourceType.unaliasedList, mapList, mapList]
      exact .refl _
  | t :: rest => by
      rw [SourceType.unaliasedList, mapList, mapList]
      exact (mapWith_unaliased h t).bind fun _ => (mapList_unaliased h rest).bind fun _ => .refl _

theorem mapTerms_unaliased
    (h : ∀ key, Option.Rel Mapping.Matches (overridden key) (overridden' key)) :
    ∀ terms : List (TermOf SourceType), (mapTerms w overridden terms).Matches
      (mapTerms w.unaliased overridden' (SourceType.unaliasedTerms terms))
  | [] => by
      rw [SourceType.unaliasedTerms, mapTerms, mapTerms]
      exact .refl _
  | ⟨tilde, t⟩ :: rest => by
      rw [SourceType.unaliasedTerms, mapTerms, mapTerms]
      exact (mapWith_unaliased h t).bind fun _ => (mapTerms_unaliased h rest).bind fun _ => .refl _

theorem mapForeign_unaliased
    (h : ∀ key, Option.Rel Mapping.Matches (overridden key) (overridden' key))
    (qualified : String) : ∀ t : Option SourceType,
    (mapForeign w overridden qualified t).Matches
      (mapForeign w.unaliased overridden' qualified (SourceType.unaliasedOption t))
  | none => by
      rw [SourceType.unaliasedOption, mapForeign, mapForeign]
      exact .refl _
  | some t => by
      have ht := mapWith_unaliased h t
      rw [SourceType.unaliasedOption]
      cases t with
      | struct fields =>
          rw [SourceType.unaliased, mapForeign, mapForeign]
          exact .refl _
      | _ => exact ht.bind fun _ => .refl _

end

end Mapping

/-- An override that stands for a type is respelled too, so the induction is on the number of
overrides in force, which is less inside an override. -/
theorem mapType_unaliased (w : Workspace) {inForce inForce' : Keyed TypeOverride}
    (hget : ∀ key, inForce'.get? key = (inForce.get? key).map TypeOverride.unaliased)
    (t : SourceType) :
    (mapType w inForce t).Matches (mapType w.unaliased inForce' t.unaliased) := by
  induction hsize : inForce.size using Nat.strongRecOn generalizing inForce inForce' t with
  | _ size ih =>
      rw [mapType_eq_mapWith, mapType_eq_mapWith]
      refine mapWith_unaliased w (fun key => ?_) t
      rw [overrideIn, overrideIn, hget]
      cases hkey : inForce.get? key with
      | none => exact .none
      | some o =>
          cases o with
          | expression e => exact .some (.refl _)
          | type other =>
              have hless : (inForce.erase key).size < size := hsize ▸ inForce.length_erase_lt hkey
              refine .some (ih _ hless (fun name => ?_) other rfl)
              rw [Keyed.get?_erase, Keyed.get?_erase, hget]
              split <;> rfl

namespace Workspace

variable (w : Workspace)

theorem matches_mapType (t : SourceType) :
    (w.mapType t).Matches (w.unaliased.mapType t.unaliased) :=
  TypeBridge.mapType_unaliased w (Keyed.get?_mapValues _ _) t

/-! ### Declaring -/

theorem matches_fieldPart (owner : String) (f : Field) :
    (w.fieldPart owner f).Matches
      (w.unaliased.fieldPart owner { f with type := f.type.unaliased }) := by
  unfold fieldPart
  cases StructTags.parse f.tag with
  | error e => exact .refl _
  | ok tags =>
      dsimp only
      split
      · rw [embeddedPart, embeddedPart, f.type.unaliased_pointee]
        exact (w.matches_mapType f.type.pointee).bind fun _ => .refl _
      · have hexported : ({ f with type := f.type.unaliased } : Field).isExported = f.isExported :=
          rfl
        rw [memberPart, memberPart, hexported]
        split
        · exact .refl _
        · exact (w.matches_mapType f.type).bind fun _ => .refl _

theorem matches_fieldParts (owner : String) : ∀ fields : List Field,
    (w.fieldParts owner fields).Matches
      (w.unaliased.fieldParts owner (SourceType.unaliasedFields fields))
  | [] => .refl _
  | f :: rest => by
      rw [SourceType.unaliasedFields, fieldParts, fieldParts]
      exact (w.matches_fieldPart owner f).bind fun _ =>
        (matches_fieldParts owner rest).bind fun _ => .refl _

theorem matches_declaredParams : ∀ params : List TypeParamDecl,
    (w.declaredParams params).Matches
      (w.unaliased.declaredParams (params.map TypeParamDecl.unaliased))
  | [] => .refl _
  | q :: rest => by
      rw [List.map_cons, declaredParams, declaredParams]
      exact (w.matches_mapType (.typeParam q.name q.constraint)).bind fun _ =>
        (matches_declaredParams rest).bind fun _ => .refl _

variable (p : Package) (d : TypeDecl) (params : List TypeParameter)

theorem aliasOf_unaliased (mapped : MappedType) :
    w.unaliased.aliasOf p.unaliased d.unaliased params mapped = w.aliasOf p d params mapped := by
  rw [aliasOf, aliasOf, identifier_unaliased]
  rfl

theorem matches_genericAlias {mapped mapped' : Mapping MappedType} (h : mapped.Matches mapped') :
    (w.genericAlias p d params mapped).Matches
      (w.unaliased.genericAlias p.unaliased d.unaliased params mapped') := by
  unfold genericAlias
  refine h.bind fun _ => (Mapping.Matches.refl _).bind fun _ => ?_
  rw [aliasOf_unaliased, identifier_unaliased]
  exact .refl _

theorem matches_recordOf (fields : List Field) :
    (w.recordOf p d params fields).Matches
      (w.unaliased.recordOf p.unaliased d.unaliased params
        (SourceType.unaliasedFields fields)) := by
  unfold recordOf
  refine (w.matches_fieldParts _ fields).bind fun _ => (Mapping.Matches.refl _).bind fun _ => ?_
  rw [identifier_unaliased]
  exact .refl _

/-- The form of a declaration is chosen by the outermost constructor, which respelling keeps. -/
theorem matches_declareAs (t : SourceType) :
    (w.declareAs p d params t).Matches
      (w.unaliased.declareAs p.unaliased d.unaliased params t.unaliased) := by
  cases t with
  | struct fields => exact w.matches_recordOf p d params fields
  | basic kind =>
      refine (w.matches_mapType (.basic kind)).bind fun _ => ?_
      rw [aliasOf_unaliased, identifier_unaliased]
      exact .refl _
  | interface embeddeds methods =>
      match embeddeds with
      | [] => exact .refl _
      | [constraint] =>
          exact w.matches_genericAlias p d params
            ((w.matches_mapType constraint).bind fun _ => .refl _)
      | first :: second :: rest => exact .fail _ _
  | signature => exact .refl _
  | map key value => exact w.matches_genericAlias p d params (w.matches_mapType (.map key value))
  | slice elem => exact w.matches_genericAlias p d params (w.matches_mapType (.slice elem))
  | array length elem =>
      exact w.matches_genericAlias p d params (w.matches_mapType (.array length elem))
  | named type => exact w.matches_genericAlias p d params (w.matches_mapType (.named type))
  | pointer elem => exact w.matches_genericAlias p d params (w.matches_mapType (.pointer elem))
  | union terms => exact .fail _ _
  | typeParam name constraint => exact .fail _ _
  | chan elem => exact .fail _ _

theorem underlying?_unaliased (owner : Package) (named : NamedType) :
    underlying? owner.unaliased named.unaliased =
      (underlying? owner named).map SourceType.unaliased := by
  obtain ⟨package, name, typeArgs, underlying⟩ := named
  cases underlying with
  | some t => rfl
  | none =>
      simp only [underlying?, NamedOf.unaliased, SourceType.unaliasedOption,
        owner.lookup_unaliased]
      cases owner.lookup name with
      | none => rfl
      | some o => cases o <;> rfl

/-- Respelled or not, a basic type can have constants and any other type cannot; only the message
about the other type may differ. -/
theorem matches_checkEnumType (owner : Package) (named : NamedType) :
    (Mapping.ofExcept (checkEnumType owner named)).Matches
      (Mapping.ofExcept (checkEnumType owner.unaliased named.unaliased)) := by
  rw [checkEnumType, checkEnumType, underlying?_unaliased]
  cases underlying? owner named with
  | none => exact .fail _ _
  | some t =>
      cases t with
      | basic kind => exact .refl _
      | _ => exact .fail _ _

theorem matches_declareMember (c : ConstDecl) (named : NamedType) :
    (w.declareMember c named).Matches
      (w.unaliased.declareMember c.unaliased named.unaliased) := by
  obtain ⟨package, name, typeArgs, underlying⟩ := named
  cases package with
  | none => exact .fail _ _
  | some path =>
      simp only [declareMember, NamedOf.unaliased, w.get?_unaliased]
      cases w.packages.get? path with
      | none => exact .refl _
      | some owner =>
          simp only [Option.map_some, w.isIgnored_unaliased]
          split
          · exact .refl _
          · refine (matches_checkEnumType owner _).bind fun _ => ?_
            rw [identifier_unaliased]
            exact .refl _

theorem matches_declare (o : Object) :
    (w.declare p o).Matches (w.unaliased.declare p.unaliased o.unaliased) := by
  cases o with
  | typeName d =>
      exact (w.matches_declaredParams d.typeParams).bind fun params =>
        w.matches_declareAs p d params d.underlying
  | const c =>
      obtain ⟨name, type, value, doc, position⟩ := c
      cases type with
      | named named => exact w.matches_declareMember _ named
      | basic kind =>
          have hname : w.unaliased.identifier p.unaliased.path name = w.identifier p.path name :=
            w.identifier_unaliased ..
          simp only [Object.unaliased, ConstDecl.unaliased, SourceType.unaliased, declare,
            declareConst, hname]
          exact .refl _
      | _ => exact .fail _ _
  | var d => exact .refl _
  | func d => exact .refl _

/-! ### Converting -/

theorem objectsAlike_unaliased (d : Package × Object) :
    ObjectsAlike (fun _ _ => True) w w.unaliased d (d.1.unaliased, d.2.unaliased) where
  path := rfl
  mode := rfl
  name := d.2.name_unaliased
  enumType := d.2.enumType?_unaliased
  declare := w.matches_declare d.1 d.2

theorem parallel_unaliased : Parallel (fun _ _ => True) w w.unaliased where
  packages := by
    have hvalues : w.unaliased.packages.values =
        w.packages.entries.map fun entry => entry.2.unaliased := List.map_map
    rw [hvalues, Keyed.values, List.forall₂_map_left_iff, List.forall₂_map_right_iff]
    refine List.forall₂_same.mpr fun entry _ => ⟨rfl, ?_⟩
    exact List.forall₂_map_right_iff.mpr
      (List.forall₂_same.mpr fun o _ => w.objectsAlike_unaliased (entry.2, o))
  found path name := by
    rw [find?_unaliased]
    cases w.find? path name with
    | none => exact .none
    | some d => exact .some (w.objectsAlike_unaliased d)
  ignored := w.isIgnored_unaliased

end Workspace

/-! ### Respelled workspaces -/

namespace SourceType

/-- A slice, or an array of the given length. -/
def listOf : Option UInt64 → SourceType → SourceType
  | none, elem => .slice elem
  | some length, elem => .array length elem

theorem unaliased_listOf (length : Option UInt64) (elem : SourceType) :
    (listOf length elem).unaliased =
      listOf length (if elem.isByte then elem else elem.unaliased) := by
  cases length <;> rw [listOf, unaliased, listOf]

theorem eq_byte_of_isByte {t : SourceType} (h : t.isByte = true) : t = .basic .byte := by
  cases t with
  | basic kind => cases kind <;> first | rfl | cases h
  | _ => cases h

/-- Only one type is a byte in all but its spelling. -/
theorem eq_uint8_of_unaliased {t : SourceType} (h : t.unaliased = .basic .uint8)
    (hbyte : t.isByte = false) : t = .basic .uint8 := by
  cases t with
  | basic kind =>
      have hkind : kind.unaliased = .uint8 := SourceType.basic.inj h
      unfold BasicKind.unaliased at hkind
      split at hkind
      · cases hbyte
      · cases hkind
      · rw [hkind]
  | named type => obtain ⟨package, name, typeArgs, underlying⟩ := type; cases h
  | _ => cases h

theorem unaliased_listOf_eq {length : Option UInt64} {elem elem' : SourceType}
    (h : elem'.unaliased = elem.unaliased) (hbyte : elem'.isByte = elem.isByte) :
    (listOf length elem').unaliased = (listOf length elem).unaliased := by
  rw [unaliased_listOf, unaliased_listOf, hbyte]
  split
  · rename_i helem
    rw [eq_byte_of_isByte helem, eq_byte_of_isByte (hbyte.trans helem)]
  · rw [h]

end SourceType

namespace Workspace

theorem mapType_listOf_byte (w : Workspace) (length : Option UInt64) :
    (w.mapType (.listOf length (.basic .byte))).result =
      .ok (.plain (.array (.keyword .string))) := by
  cases length <;> rw [Workspace.mapType, mapType_eq_mapWith, SourceType.listOf, mapWith] <;> rfl

theorem mapType_listOf_uint8 (w : Workspace) (length : Option UInt64) :
    (w.mapType (.listOf length (.basic .uint8))).result =
      .ok (.plain (.array (.keyword .number))) := by
  cases length <;>
    rw [Workspace.mapType, mapType_eq_mapWith, SourceType.listOf, mapWith, mapWith] <;> rfl

/-- The two spellings of a byte make two different lists. -/
theorem mapType_listOf_ne (w w' : Workspace) (length : Option UInt64) :
    (w.mapType (.listOf length (.basic .byte))).result.toOption ≠
      (w'.mapType (.listOf length (.basic .uint8))).result.toOption := by
  rw [mapType_listOf_byte, mapType_listOf_uint8]
  intro h
  cases h

variable {w w' : Workspace} (h : w'.unaliased = w.unaliased)

include h

theorem mapType_respelled {t t' : SourceType} (ht : t'.unaliased = t.unaliased) :
    (w'.mapType t').result.toOption = (w.mapType t).result.toOption := by
  rw [← (w'.matches_mapType t').result.toOption_eq, h, ht,
    (w.matches_mapType t).result.toOption_eq]

theorem mapType_listOf_respelled {elem elem' : SourceType} (length : Option UInt64)
    (helem : elem'.unaliased = elem.unaliased) :
    (w'.mapType (.listOf length elem')).result.toOption =
        (w.mapType (.listOf length elem)).result.toOption ↔ elem'.isByte = elem.isByte := by
  refine ⟨fun hsame => ?_, fun hbyte => mapType_respelled h
    (SourceType.unaliased_listOf_eq helem hbyte)⟩
  cases hbyte : elem.isByte <;> cases hbyte' : elem'.isByte
  · rfl
  · rw [SourceType.eq_byte_of_isByte hbyte'] at hsame helem
    rw [SourceType.eq_uint8_of_unaliased helem.symm hbyte] at hsame
    exact absurd hsame (mapType_listOf_ne w' w length)
  · rw [SourceType.eq_byte_of_isByte hbyte] at hsame helem
    rw [SourceType.eq_uint8_of_unaliased helem hbyte'] at hsame
    exact absurd hsame.symm (mapType_listOf_ne w w' length)
  · rfl

/-- Workspaces that differ in spellings only, but not in which lists have elements written `byte`,
are converted to the same graph with the same events, or neither is converted. If the element of a
slice or an array is respelled, the list is mapped to the same type exactly if the element is
written `byte` both times or neither time. -/
theorem convert_respelled :
    w'.convert.1.toOption = w.convert.1.toOption ∧ w'.convert.2 = w.convert.2 ∧
    ∀ (length : Option UInt64) (elem elem' : SourceType), elem'.unaliased = elem.unaliased →
      ((w'.mapType (.listOf length elem')).result.toOption =
        (w.mapType (.listOf length elem)).result.toOption ↔ elem'.isByte = elem.isByte) := by
  have hw := w.parallel_unaliased.convert_alike keepsErrors_any
  have hw' := w'.parallel_unaliased.convert_alike keepsErrors_any
  rw [h] at hw'
  refine ⟨?_, ?_, fun length elem elem' => mapType_listOf_respelled h length⟩
  · rw [← hw'.1.toOption_eq, hw.1.toOption_eq]
  · rw [← hw'.2, hw.2]

end Workspace

/-- A struct of a text and a mark, either of which may be spelled in two ways. -/
def letterFields (text mark : SourceType) : List Field :=
  [{ name := "Text", type := text, embedded := false, tag := "", doc := [] },
   { name := "Mark", type := .pointer mark, embedded := false, tag := "", doc := [] }]

def letterPackage (text mark : SourceType) : Package :=
  { path := "post", name := "post",
    objects := [.typeName { name := "Letter", underlying := .struct (letterFields text mark) }] }

def letterWorkspace (text mark : SourceType) : Workspace :=
  .ofPackages [letterPackage text mark] (List.pairwise_singleton ..)

theorem convert_respelled_letter :
    (letterWorkspace (.slice (.basic .rune)) (.basic .byte)).convert.1.toOption =
      (letterWorkspace (.slice (.basic .int32)) (.basic .uint8)).convert.1.toOption ∧
    (letterWorkspace (.slice (.basic .int32)) (.basic .uint8)).convert.1.toOption.isSome = true := by
  have hunaliased : (letterWorkspace (.slice (.basic .rune)) (.basic .byte)).unaliased =
      (letterWorkspace (.slice (.basic .int32)) (.basic .uint8)).unaliased := rfl
  exact ⟨(Workspace.convert_respelled hunaliased).1, by decide +kernel⟩

/-- A slice whose elements are written `uint8` and not `byte` is a list of numbers and not of
strings. -/
theorem list_of_bytes_respelled :
    BasicKind.uint8.unaliased = BasicKind.byte.unaliased ∧
    (letterWorkspace (.slice (.basic .uint8)) (.basic .byte)).convert.1.toOption ≠
      (letterWorkspace (.slice (.basic .byte)) (.basic .byte)).convert.1.toOption := by
  have htext : ((letterWorkspace (.slice (.basic .byte)) (.basic .byte)).convert.1.toOption.bind
      fun g => (g.get? "Letter").map fun d => (Style.print {} d).toOption) = some
        (some "interface Letter \x7b\n    Text: string[];\n    Mark: number | null;\n\x7d") := by
    decide +kernel
  have htext' : ((letterWorkspace (.slice (.basic .uint8)) (.basic .byte)).convert.1.toOption.bind
      fun g => (g.get? "Letter").map fun d => (Style.print {} d).toOption) = some
        (some "interface Letter \x7b\n    Text: number[];\n    Mark: number | null;\n\x7d") := by
    decide +kernel
  refine ⟨rfl, fun hsame => ?_⟩
  rw [hsame, htext] at htext'
  exact absurd htext' (by decide +kernel)

end TypeBridge
