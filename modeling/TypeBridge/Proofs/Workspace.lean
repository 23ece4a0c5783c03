import TypeBridge.Conversion
import TypeBridge.Proofs.Keyed
import TypeBridge.Proofs.Occurrence

/-!
Finding objects in a workspace. A package is found under its own path, and an object that is found
is declared there under its name; where the names of a package are distinct, every declared object
is found.
-/

namespace TypeBridge

/-- The name of an object of a package. -/
def nameOf (d : Package × Object) : ObjectName := ⟨d.1.path, d.2.name⟩

def Object.isConst : Object → Bool
  | .const _ => true
  | _ => false

/-- The named type that an object belongs to as a constant. -/
def Object.enumType? : Object → Option ObjectName
  | .const c => c.enumType?
  | _ => none

/-- The objects of a package, each with the package. -/
def Package.located (p : Package) : List (Package × Object) := p.objects.map fun o => (p, o)

theorem Package.name_of_lookup {p : Package} {name : String} {o : Object}
    (h : p.lookup name = some o) : o.name = name := by
  have hfound := List.find?_some h
  exact beq_iff_eq.mp hfound

/-- An object with no namesake before it is found. -/
theorem Package.lookup_of_first {p : Package} {passed rest : List Object} {o : Object}
    (hobjects : p.objects = passed ++ o :: rest) (hfirst : ∀ other ∈ passed, other.name ≠ o.name) :
    p.lookup o.name = some o := by
  rw [lookup, List.find?_eq_some_iff_append]
  refine ⟨beq_self_eq_true _, passed, rest, hobjects, fun other hother => ?_⟩
  simpa using hfirst other hother

/-- Where names are distinct, every object is found. -/
theorem Package.lookup_eq_some_iff {p : Package} (hnodup : (p.objects.map Object.name).Nodup)
    {name : String} {o : Object} : p.lookup name = some o ↔ o ∈ p.objects ∧ o.name = name := by
  constructor
  · intro h
    exact ⟨List.mem_of_find?_eq_some h, name_of_lookup h⟩
  · rintro ⟨ho, rfl⟩
    obtain ⟨passed, rest, hobjects⟩ := List.append_of_mem ho
    refine lookup_of_first hobjects fun other hother => ?_
    rw [hobjects, List.map_append, List.nodup_append] at hnodup
    exact hnodup.2.2 _ (List.mem_map_of_mem hother) _ List.mem_cons_self

/-- By default, one name of the universe is overridden. -/
theorem TypeOverride.eq_of_get?_defaults {key : String} {o : TypeOverride}
    (h : defaults.get? key = some o) : key = "error" ∧ o = keyword .string := by
  have hmem : (key, o) ∈ [("error", keyword .string)] := Keyed.mem_entries_iff.mpr h
  exact Prod.mk.inj (List.mem_singleton.mp hmem)

namespace Workspace

variable {w : Workspace}

/-- The objects of all packages, each with its package. -/
def located (w : Workspace) : List (Package × Object) := w.packages.values.flatMap Package.located

theorem mem_located_iff {d : Package × Object} : d ∈ w.located ↔ w.Declares d.1 d.2 := by
  rw [located, List.mem_flatMap]
  constructor
  · rintro ⟨p, hp, hd⟩
    obtain ⟨o, ho, rfl⟩ := List.mem_map.mp hd
    exact ⟨hp, ho⟩
  · rintro ⟨hp, ho⟩
    exact ⟨d.1, hp, List.mem_map.mpr ⟨d.2, ho, rfl⟩⟩

/-- No constant of a reference package is given as the type of another one. -/
def NoConstantAsType (w : Workspace) : Prop :=
  ∀ d d' : Package × Object, w.Declares d.1 d.2 → w.Declares d'.1 d'.2 → d.1.mode = .reference →
    d'.1.mode = .reference → d'.2.isConst = true → d.2.enumType? ≠ some (nameOf d')

/-- Generated names are told apart by package and name, if not by what is emitted. -/
theorem identifier_injective {path name path' name' : String}
    (h : w.identifier path name = w.identifier path' name') : path = path' ∧ name = name' :=
  ⟨Option.some.inj (congrArg Identifier.package h), congrArg Identifier.name h⟩

theorem path_of_get? {path : String} {p : Package} (h : w.packages.get? path = some p) :
    p.path = path :=
  w.path_eq (path, p) (Keyed.mem_entries_iff.mpr h)

theorem get?_path {p : Package} (h : p ∈ w.packages.values) :
    w.packages.get? p.path = some p := by
  obtain ⟨path, hpath⟩ := Keyed.mem_values_iff.mp h
  rw [path_of_get? hpath]
  exact hpath

theorem find?_eq_some_iff {path name : String} {d : Package × Object} :
    w.find? path name = some d ↔
      w.packages.get? path = some d.1 ∧ d.1.lookup name = some d.2 := by
  obtain ⟨p, o⟩ := d
  simp only [find?, bind, pure, Option.bind_eq_some_iff, Option.some.injEq, Prod.mk.injEq]
  constructor
  · rintro ⟨p', hp, o', ho, rfl, rfl⟩
    exact ⟨hp, ho⟩
  · rintro ⟨hp, ho⟩
    exact ⟨p, hp, o, ho, rfl, rfl⟩

theorem nameOf_of_find? {path name : String} {d : Package × Object}
    (h : w.find? path name = some d) : nameOf d = ⟨path, name⟩ := by
  obtain ⟨hp, ho⟩ := find?_eq_some_iff.mp h
  rw [nameOf, path_of_get? hp, Package.name_of_lookup ho]

theorem declares_of_find? {path name : String} {d : Package × Object}
    (h : w.find? path name = some d) : w.Declares d.1 d.2 := by
  obtain ⟨hp, ho⟩ := find?_eq_some_iff.mp h
  exact ⟨Keyed.mem_values_iff.mpr ⟨path, hp⟩, List.mem_of_find?_eq_some ho⟩

/-- A declared name is found, if only as another object of that name. -/
theorem isSome_find? {p : Package} {o : Object} (h : w.Declares p o) :
    (w.find? p.path o.name).isSome = true := by
  have hlookup : (p.lookup o.name).isSome = true := by
    rw [Package.lookup, List.find?_isSome]
    exact ⟨o, h.2, beq_self_eq_true _⟩
  obtain ⟨o', ho'⟩ := Option.isSome_iff_exists.mp hlookup
  have hfind : w.find? p.path o.name = some (p, o') :=
    find?_eq_some_iff.mpr ⟨get?_path h.1, ho'⟩
  rw [hfind]
  rfl

theorem find?_of_lookup {p : Package} (hp : p ∈ w.packages.values) {o : Object}
    (ho : p.lookup o.name = some o) : w.find? p.path o.name = some (p, o) :=
  find?_eq_some_iff.mpr ⟨get?_path hp, ho⟩

theorem DistinctNames.find? (hdistinct : w.DistinctNames) {p : Package} {o : Object}
    (h : w.Declares p o) : w.find? p.path o.name = some (p, o) :=
  find?_of_lookup h.1 ((Package.lookup_eq_some_iff (hdistinct p h.1)).mpr ⟨h.2, rfl⟩)

/-- Where names are distinct, objects are told apart by their names. -/
theorem DistinctNames.eq_of_nameOf (hdistinct : w.DistinctNames) {d d' : Package × Object}
    (h : w.Declares d.1 d.2) (h' : w.Declares d'.1 d'.2) (hname : nameOf d = nameOf d') :
    d = d' := by
  have hfind := hdistinct.find? h
  have hfind' := hdistinct.find? h'
  have hpath : d.1.path = d'.1.path := congrArg ObjectName.package hname
  have hobject : d.2.name = d'.2.name := congrArg ObjectName.name hname
  rw [hpath, hobject, hfind'] at hfind
  exact (Option.some.inj hfind).symm

/-- The workspace of packages with distinct paths, with the default overrides and no exclusions. -/
def ofPackages (packages : List Package) (h : (packages.map Package.path).Nodup) : Workspace where
  packages := ⟨packages.map fun p => (p.path, p), by simpa [Function.comp_def] using h⟩
  path_eq := by
    intro entry hentry
    obtain ⟨p, -, rfl⟩ := List.mem_map.mp hentry
    rfl

end Workspace

end TypeBridge
