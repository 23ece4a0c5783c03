import TypeBridge.Declare
import TypeBridge.Store

/-!
The conversion of a workspace into a graph. Generated packages come first, then the reference
packages, of which only what is referenced is declared. After each package, everything that was
referenced and not yet declared is declared, in rounds, until nothing is left. At the end the
builtins that were asked for are added, and the queued enum members are attached.
-/

namespace TypeBridge

/-- Adds what an object emits. -/
def Store.emit (s : Store) : Emission → Except Error Store
  | .nothing => .ok s
  | .define key d => s.define key d
  | .fill key d => s.fill key d
  | .member key m => .ok (s.queue key [m])

/-- What a conversion has built so far, and the objects it declared for that, in order. -/
structure Progress where
  store : Store := {}
  marks : Marks := {}
  builtins : List Builtin := []
  declared : List (Package × Object) := []
deriving Inhabited

namespace Progress

/-- Notes that an object is being declared. -/
def record (s : Progress) (p : Package) (o : Object) : Progress :=
  { s with declared := s.declared ++ [(p, o)] }

def markGenerated (s : Progress) (o : ObjectName) : Progress :=
  { s with marks := s.marks.generate o }

/-- Does what a mapping asked for. -/
def heed (effect : Effect) (s : Progress) : Outcome Progress :=
  match effect with
  | .reference o => .done { s with marks := s.marks.reference o }
  | .require b =>
      .done (if s.builtins.contains b then s else { s with builtins := s.builtins ++ [b] })
  | .report e => { state := s, events := [e] }

/-- Adds what an object emits to the store. -/
def emit (s : Progress) (e : Emission) : Except Error Progress := do
  return { s with store := ← s.store.emit e }

/-- Does what a declared object asked for and adds what it emits. -/
def apply (declared : Mapping Emission) (s : Progress) : Outcome Progress :=
  (Outcome.forEach heed declared.effects s).andThen fun s =>
    match declared.result.bind s.emit with
    | .ok s => .done s
    | .error e => .stopped s e

end Progress

namespace Workspace

variable (w : Workspace)

/-- Declares one object and marks it as generated. -/
def generate (p : Package) (o : Object) (s : Progress) : Outcome Progress :=
  (((s.record p o).apply (w.declare p o)).mapError (.object p.path o.name)).andThen fun s =>
    .done (s.markGenerated ⟨p.path, o.name⟩)

/-- Whether an object of a reference package is to be declared now. A constant follows its type. -/
def isWanted (s : Progress) (p : Package) (o : Object) : Bool :=
  s.marks.isReferenced ⟨p.path, o.name⟩ ||
    match o with
    | .const c => c.enumType?.any s.marks.isReferenced
    | _ => false

/-- Declares an object of a package in its turn, unless there is a reason not to. -/
def convertObject (p : Package) (o : Object) (s : Progress) : Outcome Progress :=
  if w.isIgnored p.path o.name then .done s
  else if p.mode = .reference ∧ ¬ isWanted s p o then .done s
  else if s.marks.isGenerated ⟨p.path, o.name⟩ then .done s
  else w.generate p o s

/-- Declares a referenced object, if it is declared in the source and not ignored. -/
def resolveObject (o : ObjectName) (s : Progress) : Outcome Progress :=
  if s.marks.isGenerated o then .done s
  else if w.isIgnored o.package o.name then .done (s.markGenerated o)
  else match w.find? o.package o.name with
    | some (p, object) => w.generate p object s
    | none => .done (s.markGenerated o)

/-- Declares referenced objects in rounds until none is left, with at most the given number of
rounds. -/
def resolveWithin : Nat → Sweep → Progress → Outcome Progress
  | rounds, sweep, s =>
      match s.marks.remaining sweep with
      | (.error e, _) => .stopped s e
      | (.ok [], _) => .done s
      | (.ok (o :: rest), sweep) =>
          match rounds with
          | 0 => .stopped s (.circularGeneration o.package o.name)
          | rounds + 1 =>
              (Outcome.forEach w.resolveObject (o :: rest) s).andThen (resolveWithin rounds sweep)

/-- The number of objects that can be referenced: every declared one, and the type of every
constant. It bounds the rounds, since every round declares an object. -/
def roundLimit : Nat := 2 * w.size

def resolve (s : Progress) : Outcome Progress := w.resolveWithin w.roundLimit {} s

/-- Declares the objects of a package in order, and then what they reference. -/
def convertPackage (p : Package) (s : Progress) : Outcome Progress :=
  (Outcome.forEach (w.convertObject p) p.objects s).andThen w.resolve

/-- Generated packages first, so that the others know what is wanted of them. -/
def packagesInOrder : List Package :=
  w.packages.values.filter (fun p => p.mode = .generate) ++
    w.packages.values.filter (fun p => p.mode ≠ .generate)

/-- Adds a builtin, unless a declaration has its name. -/
def supply (b : Builtin) (s : Progress) : Outcome Progress :=
  if s.store.contains b.name then { state := s, events := [.builtinShadowed b.name] }
  else match s.store.define b.name b.declaration with
    | .ok store => .done { s with store := store }
    | .error e => .stopped s e

/-- All declarations of a conversion, before the queued enum members are attached. -/
def build : Outcome Progress :=
  (Outcome.forEach w.convertPackage w.packagesInOrder {}).andThen fun s =>
    Outcome.forEach supply s.builtins s

/-- Converts a workspace, with the events reported on the way. -/
def convert : Except Error Graph × List Event :=
  let built := w.build
  (built.result.bind fun s => s.store.finalize, built.events)

end Workspace

end TypeBridge
