import TypeBridge.Marks
import TypeBridge.Workspace

/-!
What occurs in a type. The types inside a type are listed with the type itself first; the type
parameters and the objects that a type mentions are read off that list. From there on, what occurs
in an object and in a whole workspace, its overrides included.
-/

namespace TypeBridge

namespace SourceType

mutual

/-- All types inside a type, itself first. -/
def subtypes : SourceType → List SourceType
  | .named ⟨package, name, typeArgs, underlying⟩ =>
      .named ⟨package, name, typeArgs, underlying⟩ ::
        (subtypesList typeArgs ++ subtypesOption underlying)
  | .pointer elem => .pointer elem :: subtypes elem
  | .slice elem => .slice elem :: subtypes elem
  | .array length elem => .array length elem :: subtypes elem
  | .map key value => .map key value :: (subtypes key ++ subtypes value)
  | .struct fields => .struct fields :: subtypesFields fields
  | .interface embeddeds methods => .interface embeddeds methods :: subtypesList embeddeds
  | .union terms => .union terms :: subtypesTerms terms
  | .typeParam name constraint => .typeParam name constraint :: subtypes constraint
  | .chan elem => .chan elem :: subtypes elem
  | t => [t]

def subtypesList : List SourceType → List SourceType
  | [] => []
  | t :: rest => subtypes t ++ subtypesList rest

def subtypesOption : Option SourceType → List SourceType
  | none => []
  | some t => subtypes t

def subtypesFields : List (FieldOf SourceType) → List SourceType
  | [] => []
  | ⟨_, type, _, _, _⟩ :: rest => subtypes type ++ subtypesFields rest

def subtypesTerms : List (TermOf SourceType) → List SourceType
  | [] => []
  | ⟨_, type⟩ :: rest => subtypes type ++ subtypesTerms rest

end

theorem subtypesFields_eq_flatMap (fields : List Field) :
    subtypesFields fields = fields.flatMap fun f => subtypes f.type := by
  induction fields with
  | nil => rfl
  | cons f rest ih => rw [subtypesFields, ih, List.flatMap_cons]

theorem mem_subtypes_self (t : SourceType) : t ∈ t.subtypes := by
  cases t <;> simp [subtypes]

theorem subtypes_map_key (key value : SourceType) :
    key.subtypes ⊆ (SourceType.map key value).subtypes :=
  fun _ h => List.mem_cons_of_mem _ (List.mem_append_left _ h)

theorem subtypes_map_value (key value : SourceType) :
    value.subtypes ⊆ (SourceType.map key value).subtypes :=
  fun _ h => List.mem_cons_of_mem _ (List.mem_append_right _ h)

theorem subtypes_subset_list {t : SourceType} {ts : List SourceType} (ht : t ∈ ts) :
    t.subtypes ⊆ subtypesList ts := by
  induction ts with
  | nil => cases ht
  | cons first rest ih =>
      intro u hu
      rw [subtypesList, List.mem_append]
      rcases List.mem_cons.mp ht with rfl | ht
      · exact Or.inl hu
      · exact Or.inr (ih ht hu)

theorem subtypes_typeArg {t : SourceType} {typeArgs : List SourceType} (package : Option String)
    (name : String) (underlying : Option SourceType) (ht : t ∈ typeArgs) :
    t.subtypes ⊆ (SourceType.named ⟨package, name, typeArgs, underlying⟩).subtypes :=
  fun _ hu => List.mem_cons_of_mem _ (List.mem_append_left _ (subtypes_subset_list ht hu))

theorem subtypes_underlying {t : SourceType} {underlying : Option SourceType}
    (package : Option String) (name : String) (typeArgs : List SourceType)
    (ht : underlying = some t) :
    t.subtypes ⊆ (SourceType.named ⟨package, name, typeArgs, underlying⟩).subtypes := by
  subst ht
  exact fun _ hu => List.mem_cons_of_mem _ (List.mem_append_right _ hu)

theorem subtypes_embedded (embedded : SourceType) (methods : List String) :
    embedded.subtypes ⊆ (SourceType.interface [embedded] methods).subtypes :=
  fun _ hu => List.mem_cons_of_mem _ (subtypes_subset_list List.mem_cons_self hu)

theorem subtypes_term {term : Term} {terms : List Term} (hterm : term ∈ terms) :
    term.type.subtypes ⊆ (SourceType.union terms).subtypes := by
  have hsub : term.type.subtypes ⊆ subtypesTerms terms := by
    induction terms with
    | nil => cases hterm
    | cons first rest ih =>
        intro u hu
        rw [subtypesTerms, List.mem_append]
        rcases List.mem_cons.mp hterm with rfl | hterm
        · exact Or.inl hu
        · exact Or.inr (ih hterm hu)
  exact fun _ hu => List.mem_cons_of_mem _ (hsub hu)

theorem subtypes_field {field : Field} {fields : List Field} (hfield : field ∈ fields) :
    field.type.subtypes ⊆ (SourceType.struct fields).subtypes := by
  intro u hu
  rw [subtypes, subtypesFields_eq_flatMap]
  exact List.mem_cons_of_mem _ (List.mem_flatMap.mpr ⟨field, hfield, hu⟩)

/-- The type parameters that occur in a type. -/
def params (t : SourceType) : List String :=
  t.subtypes.filterMap fun u =>
    match u with
    | .typeParam name _ => some name
    | _ => none

/-- The objects that a type names. -/
def objects (t : SourceType) : List ObjectName :=
  t.subtypes.filterMap fun u =>
    match u with
    | .named ⟨some package, name, _, _⟩ => some ⟨package, name⟩
    | _ => none

theorem objects_subset {t u : SourceType} (h : u.subtypes ⊆ t.subtypes) :
    u.objects ⊆ t.objects := by
  intro x hx
  obtain ⟨v, hv, hmatch⟩ := List.mem_filterMap.mp hx
  exact List.mem_filterMap.mpr ⟨v, h hv, hmatch⟩

theorem mem_params_iff {t : SourceType} {name : String} :
    name ∈ t.params ↔ ∃ constraint, .typeParam name constraint ∈ t.subtypes := by
  rw [params, List.mem_filterMap]
  constructor
  · rintro ⟨u, hu, hmatch⟩
    cases u with
    | typeParam other constraint =>
        cases hmatch
        exact ⟨constraint, hu⟩
    | _ => cases hmatch
  · exact fun ⟨_, hmem⟩ => ⟨_, hmem, rfl⟩

theorem mem_objects_named (package name : String) (typeArgs : List SourceType)
    (underlying : Option SourceType) :
    ⟨package, name⟩ ∈ (SourceType.named ⟨some package, name, typeArgs, underlying⟩).objects :=
  List.mem_filterMap.mpr ⟨_, mem_subtypes_self _, rfl⟩

end SourceType

/-- The types in a declaration: the constraints of its parameters and what it stands for. -/
def TypeDecl.types (d : TypeDecl) : List SourceType :=
  d.typeParams.map TypeParamDecl.constraint ++ [d.underlying]

/-- Every type parameter that occurs in a declaration is one of its own. -/
def TypeDecl.UsesOwnParams (d : TypeDecl) : Prop :=
  ∀ t ∈ d.types, t.params ⊆ d.typeParams.map TypeParamDecl.name

def Object.types : Object → List SourceType
  | .typeName d => d.types
  | .const c => [c.type]
  | .var _ => []
  | .func _ => []

def TypeOverride.types : TypeOverride → List SourceType
  | .expression _ => []
  | .type t => [t]

namespace Workspace

variable (w : Workspace)

/-- An object that is declared in an included package, with that package. -/
def Declares (p : Package) (o : Object) : Prop := p ∈ w.packages.values ∧ o ∈ p.objects

/-- The types of all objects and overrides. -/
def types : List SourceType :=
  (w.packages.values.flatMap fun p => p.objects.flatMap Object.types) ++
    w.overrides.values.flatMap TypeOverride.types

/-- Whether a name denotes a constant. -/
def isConstant (x : ObjectName) : Bool :=
  match w.find? x.package x.name with
  | some (_, .const _) => true
  | _ => false

/-- No type that occurs anywhere names a constant. -/
def NamesNoConstant : Prop := ∀ t ∈ w.types, ∀ x ∈ t.objects, w.isConstant x = false

/-- The objects of a package have different names. -/
def DistinctNames : Prop := ∀ p ∈ w.packages.values, (p.objects.map Object.name).Nodup

end Workspace

end TypeBridge
