import TypeBridge.Proofs.Declare
import TypeBridge.Proofs.Workspace

/-!
What declaring an object takes from a workspace: what is found under a name, and in what kind of
package, how it is named, whether it is ignored, and the overrides. Workspaces that agree on these
declare every object alike, with the same effects. In what order packages or objects were given is
not among it, as long as names are not given twice. Of an object that is found, only the kind of its
package matters, and whether it is a type that can have constants.
-/

namespace TypeBridge

theorem none_or_some_of_rel {α β : Type} {r : α → β → Prop} {a : Option α} {b : Option β}
    (h : Option.Rel r a b) : (a = none ∧ b = none) ∨ ∃ x y, a = some x ∧ b = some y ∧ r x y := by
  cases h with
  | none => exact Or.inl ⟨rfl, rfl⟩
  | some hr => exact Or.inr ⟨_, _, rfl, rfl, hr⟩

/-- Two packages that answer alike when they are asked for an object. -/
structure Package.Agrees (p p' : Package) : Prop where
  path : p'.path = p.path
  name : p'.name = p.name
  mode : p'.mode = p.mode
  namePrefix : p'.namePrefix = p.namePrefix
  comments : p'.comments = p.comments
  lookup : ∀ name, p'.lookup name = p.lookup name

/-- Two workspaces that answer alike when they are asked for a package, an override or an
exclusion. -/
structure Agrees (w w' : Workspace) : Prop where
  packages : ∀ path, Option.Rel Package.Agrees (w.packages.get? path) (w'.packages.get? path)
  overrides : ∀ key, w'.overrides.get? key = w.overrides.get? key
  excluded : ∀ name, w'.excluded.contains name = w.excluded.contains name

/-- Two workspaces in which objects are declared alike. -/
structure DeclareAlike (w w' : Workspace) : Prop where
  found : ∀ path name,
    Option.Rel (fun d d' => d'.1.mode = d.1.mode) (w.find? path name) (w'.find? path name)
  identifier : ∀ path name, w'.identifier path name = w.identifier path name
  ignored : ∀ path name, w'.isIgnored path name = w.isIgnored path name
  overrides : ∀ key, w'.overrides.get? key = w.overrides.get? key
  checked : ∀ path, Option.Rel (fun q q' => ∀ named,
      Workspace.checkEnumType q' named = Workspace.checkEnumType q named)
    (w.packages.get? path) (w'.packages.get? path)

namespace Agrees

variable {w w' : Workspace} (h : Agrees w w')

include h

theorem find?_rel (path name : String) :
    Option.Rel (fun d d' => d.1.Agrees d'.1 ∧ d'.2 = d.2) (w.find? path name)
      (w'.find? path name) := by
  rcases none_or_some_of_rel (h.packages path) with ⟨hp, hp'⟩ | ⟨p, p', hp, hp', hagrees⟩
  · simp only [Workspace.find?, hp, hp']
    exact .none
  · simp only [Workspace.find?, hp, hp', bind, Option.bind_some, hagrees.lookup]
    cases p.lookup name with
    | none => exact .none
    | some o => exact .some ⟨hagrees, rfl⟩

theorem identifier (path name : String) : w'.identifier path name = w.identifier path name := by
  have hprefix : (w'.packages.get? path).map Package.namePrefix =
      (w.packages.get? path).map Package.namePrefix := by
    rcases none_or_some_of_rel (h.packages path) with ⟨hp, hp'⟩ | ⟨p, p', hp, hp', hagrees⟩
    · rw [hp, hp']
    · rw [hp, hp', Option.map_some, Option.map_some, hagrees.namePrefix]
  rw [Workspace.identifier, Workspace.identifier, hprefix]

theorem isIgnored (path name : String) : w'.isIgnored path name = w.isIgnored path name := by
  unfold Workspace.isIgnored
  rcases none_or_some_of_rel (h.packages path) with ⟨hp, hp'⟩ | ⟨p, p', hp, hp', hagrees⟩
  · rw [hp, hp']
  · simp only [hp, hp', hagrees.comments, hagrees.lookup, h.excluded]

theorem declareAlike : DeclareAlike w w' where
  found path name := by
    rcases none_or_some_of_rel (h.find?_rel path name) with ⟨hd, hd'⟩ | ⟨d, d', hd, hd', hagrees⟩
    · rw [hd, hd']
      exact .none
    · rw [hd, hd']
      exact .some hagrees.1.mode
  identifier := h.identifier
  ignored := h.isIgnored
  overrides := h.overrides
  checked path := by
    rcases none_or_some_of_rel (h.packages path) with ⟨hq, hq'⟩ | ⟨q, q', hq, hq', hagrees⟩
    · rw [hq, hq']
      exact .none
    · rw [hq, hq']
      refine .some fun named => ?_
      simp only [Workspace.checkEnumType, Workspace.underlying?, hagrees.lookup]

end Agrees

theorem announce_congr {p p' : Package} (h : p'.mode = p.mode) (x : ObjectName) :
    announce p' x = announce p x := by
  rw [announce, announce, h]

/-! ### Mapping -/

section Mapping

variable {w w' : Workspace} {overridden : String → Option (Mapping MappedType)}

mutual

theorem mapWith_congr (h : DeclareAlike w w') : ∀ t : SourceType,
    mapWith w' overridden t = mapWith w overridden t
  | .basic kind => by
      rw [mapWith, mapWith]
  | .struct fields => by
      rw [mapWith, mapWith]
  | .map key value => by
      rw [mapWith, mapWith, mapWith_congr h key, mapWith_congr h value]
  | .slice elem => by
      rw [mapWith, mapWith, mapWith_congr h elem]
  | .array length elem => by
      rw [mapWith, mapWith, mapWith_congr h elem]
  | .named ⟨none, name, typeArgs, underlying⟩ => by
      rw [mapWith, mapWith, mapForeign_congr h _ underlying]
  | .named ⟨some path, name, typeArgs, underlying⟩ => by
      rw [mapWith, mapWith, mapForeign_congr h _ underlying, mapList_congr h typeArgs, h.identifier]
      rcases none_or_some_of_rel (h.found path name) with ⟨hd, hd'⟩ | ⟨d, d', hd, hd', hmode⟩
      · rw [hd, hd']
      · simp only [hd, hd', announce_congr hmode]
  | .pointer elem => by
      rw [mapWith, mapWith, mapWith_congr h elem]
  | .interface [] [] => by
      rw [mapWith, mapWith]
  | .interface [] (method :: methods) => by
      rw [mapWith, mapWith] <;> simp
  | .interface [embedded] methods => by
      rw [mapWith, mapWith, mapWith_congr h embedded]
  | .interface (first :: second :: rest) methods => by
      rw [mapWith, mapWith] <;> simp
  | .union terms => by
      rw [mapWith, mapWith, mapTerms_congr h terms]
  | .typeParam name constraint => by
      rw [mapWith, mapWith, mapWith_congr h constraint]
  | .signature => by
      rw [mapWith, mapWith]
  | .chan elem => by
      rw [mapWith, mapWith]

theorem mapList_congr (h : DeclareAlike w w') : ∀ ts : List SourceType,
    mapList w' overridden ts = mapList w overridden ts
  | [] => by
      rw [mapList, mapList]
  | t :: rest => by
      rw [mapList, mapList, mapWith_congr h t, mapList_congr h rest]

theorem mapTerms_congr (h : DeclareAlike w w') : ∀ terms : List (TermOf SourceType),
    mapTerms w' overridden terms = mapTerms w overridden terms
  | [] => by
      rw [mapTerms, mapTerms]
  | ⟨tilde, t⟩ :: rest => by
      rw [mapTerms, mapTerms, mapWith_congr h t, mapTerms_congr h rest]

theorem mapForeign_congr (h : DeclareAlike w w') (qualified : String) : ∀ t : Option SourceType,
    mapForeign w' overridden qualified t = mapForeign w overridden qualified t
  | none => by
      rw [mapForeign, mapForeign]
  | some t => by
      have ht := mapWith_congr h t
      unfold mapForeign
      split
      · rfl
      · rfl
      · rename_i heq
        cases heq
        rw [ht]

end

theorem get?_erase_congr {inForce inForce' : Keyed TypeOverride}
    (hget : ∀ key, inForce'.get? key = inForce.get? key) (key other : String) :
    (inForce'.erase key).get? other = (inForce.erase key).get? other := by
  rw [Keyed.get?_erase, Keyed.get?_erase, hget]

/-- The induction is on the number of overrides in force, which is less inside an override. -/
theorem mapType_congr (h : DeclareAlike w w') {inForce inForce' : Keyed TypeOverride}
    (hget : ∀ key, inForce'.get? key = inForce.get? key) (t : SourceType) :
    mapType w' inForce' t = mapType w inForce t := by
  induction hsize : inForce.size using Nat.strongRecOn generalizing inForce inForce' t with
  | _ size ih =>
      have hoverride : overrideIn w' inForce' = overrideIn w inForce := by
        funext key
        rw [overrideIn, overrideIn, hget]
        cases hkey : inForce.get? key with
        | none => rfl
        | some o =>
            cases o with
            | expression e => rfl
            | type other =>
                have hless : (inForce.erase key).size < size := hsize ▸ inForce.length_erase_lt hkey
                exact congrArg some (ih _ hless (get?_erase_congr hget key) other rfl)
      rw [mapType_eq_mapWith, mapType_eq_mapWith, hoverride, mapWith_congr h]

theorem DeclareAlike.mapType_eq (h : DeclareAlike w w') : w'.mapType = w.mapType :=
  funext fun t => mapType_congr h h.overrides t

end Mapping

/-! ### Declaring -/

namespace DeclareAlike

variable {w w' : Workspace} (h : DeclareAlike w w')

include h

theorem fieldParts_eq (owner : String) (fields : List Field) :
    w'.fieldParts owner fields = w.fieldParts owner fields := by
  have hpart : ∀ f, w'.fieldPart owner f = w.fieldPart owner f := by
    intro f
    simp only [Workspace.fieldPart, Workspace.embeddedPart, Workspace.memberPart, h.mapType_eq]
  induction fields with
  | nil => rfl
  | cons f rest ih => rw [Workspace.fieldParts, Workspace.fieldParts, hpart, ih]

theorem declaredParams_eq (params : List TypeParamDecl) :
    w'.declaredParams params = w.declaredParams params := by
  induction params with
  | nil => rfl
  | cons q rest ih =>
      rw [Workspace.declaredParams, Workspace.declaredParams, h.mapType_eq, ih]

theorem declareMember_eq (c : ConstDecl) (named : NamedType) :
    w'.declareMember c named = w.declareMember c named := by
  obtain ⟨package, name, typeArgs, underlying⟩ := named
  unfold Workspace.declareMember
  cases package with
  | none => rfl
  | some path =>
      simp only
      rcases none_or_some_of_rel (h.checked path) with ⟨hq, hq'⟩ | ⟨q, q', hq, hq', hcheck⟩
      · rw [hq, hq']
      · simp only [hq, hq', h.ignored, h.identifier, hcheck]

variable {p p' : Package} (hpath : p'.path = p.path) (hname : p'.name = p.name)

include hpath hname

theorem aliasOf_eq (d : TypeDecl) (params : List TypeParameter) (mapped : MappedType) :
    w'.aliasOf p' d params mapped = w.aliasOf p d params mapped := by
  rw [Workspace.aliasOf, Workspace.aliasOf, h.identifier, Package.sourceOf, Package.sourceOf,
    hname, hpath]

theorem genericAlias_eq (d : TypeDecl) (params : List TypeParameter) (mapped : Mapping MappedType) :
    w'.genericAlias p' d params mapped = w.genericAlias p d params mapped := by
  simp only [Workspace.genericAlias, h.identifier, h.aliasOf_eq hpath hname, hpath]

theorem recordOf_eq (d : TypeDecl) (params : List TypeParameter) (fields : List Field) :
    w'.recordOf p' d params fields = w.recordOf p d params fields := by
  simp only [Workspace.recordOf, h.fieldParts_eq, h.identifier, Package.sourceOf, hname, hpath]

theorem declareType_eq (d : TypeDecl) : w'.declareType p' d = w.declareType p d := by
  have hform : ∀ params t, w'.declareAs p' d params t = w.declareAs p d params t := by
    intro params t
    unfold Workspace.declareAs
    simp only [h.recordOf_eq hpath hname, h.mapType_eq, h.identifier, h.aliasOf_eq hpath hname,
      h.genericAlias_eq hpath hname, hpath]
  simp only [Workspace.declareType, h.declaredParams_eq, hform]

theorem declare_eq (o : Object) : w'.declare p' o = w.declare p o := by
  cases o with
  | typeName d => exact h.declareType_eq hpath hname d
  | const c =>
      simp only [Workspace.declare, Workspace.declareConst, h.declareMember_eq, h.identifier,
        Package.sourceOf, hname, hpath]
  | var d => rfl
  | func d => rfl

end DeclareAlike

namespace Agrees

variable {w w' : Workspace} (h : Agrees w w') {p p' : Package} (hp : p.Agrees p')

include h hp

theorem declare_eq (o : Object) : w'.declare p' o = w.declare p o :=
  h.declareAlike.declare_eq hp.path hp.name o

theorem references_eq (o : Object) : w'.references p' o = w.references p o := by
  rw [Workspace.references, Workspace.references, h.declare_eq hp]

end Agrees

end TypeBridge
