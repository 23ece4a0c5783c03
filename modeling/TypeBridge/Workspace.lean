import TypeBridge.Outcome
import TypeBridge.Override

/-!
What a conversion starts from: the packages in the order of their inclusion, each under its own
path, the overrides, and the declarations to leave out.
-/

namespace TypeBridge

theorem path_eq_of_empty : ∀ entry ∈ (∅ : Keyed Package).entries, entry.2.path = entry.1 := by
  intro entry h
  cases h

structure Workspace where
  packages : Keyed Package := ∅
  overrides : Keyed TypeOverride := TypeOverride.defaults
  excluded : List String := []
  path_eq : ∀ entry ∈ packages.entries, entry.2.path = entry.1 := by exact path_eq_of_empty

namespace Workspace

instance : Inhabited Workspace := ⟨{}⟩

/-- Adds a package with the given mode and prefix; its diagnostics are reported. -/
def add (mode : PackageMode) (namePrefix : String) (p : Package) (w : Workspace) :
    Outcome Workspace :=
  if w.packages.contains p.path then .stopped w (.duplicatePackage p.path)
  else
    { state := { w with
        packages := w.packages.insert p.path { p with mode := mode, namePrefix := namePrefix }
        path_eq := by
          intro entry h
          rcases Keyed.mem_entries_insert h with rfl | h
          · rfl
          · exact w.path_eq entry h }
      events := p.errors.map fun e => .packageError e p.path }

/-- Adds a package with the mode and prefix that it declares itself. -/
def addDeclared (p : Package) (w : Workspace) : Outcome Workspace := w.add p.mode p.namePrefix p

/-- Adds the packages of a program, up to the first that is there already. -/
def addProgram (program : Program) (w : Workspace) : Outcome Workspace :=
  Outcome.forEach addDeclared program.packages w

/-- Registers overrides by qualified name. -/
def override (w : Workspace) (mappings : List (String × TypeOverride)) : Workspace :=
  { w with overrides := w.overrides.insertAll mappings }

/-- Registers overrides written as Go types; nothing is registered if one of them does not parse. -/
def overrideTexts (w : Workspace) (mappings : List (String × String)) : Except Error Workspace := do
  let parsed ← mappings.mapM fun mapping => do
    return (mapping.1, ← TypeOverride.parse mapping.2)
  return w.override parsed

/-- Leaves out one declaration by its qualified name. -/
def exclude (w : Workspace) (name : String) : Workspace :=
  { w with excluded := name :: w.excluded }

/-- The generated name of an object of a package. -/
def identifier (w : Workspace) (package name : String) : Identifier :=
  { name := name, package := some package,
    namePrefix := ((w.packages.get? package).map Package.namePrefix).getD "" }

/-- An object of a package, with the package. -/
def find? (w : Workspace) (package name : String) : Option (Package × Object) := do
  let p ← w.packages.get? package
  let o ← p.lookup name
  return (p, o)

/-- Whether a directive of the package or an exclusion leaves an object out. -/
def isIgnored (w : Workspace) (package name : String) : Bool :=
  match w.packages.get? package with
  | none => false
  | some p =>
      (Directive.ignoredTypes p.comments).contains name ||
        (w.excluded.contains (package ++ "." ++ name) && (p.lookup name).isSome)

/-- The number of objects of all packages. -/
def size (w : Workspace) : Nat := (w.packages.values.flatMap Package.objects).length

end Workspace

end TypeBridge
