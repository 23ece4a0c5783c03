import TypeBridge.Keyed
import TypeBridge.Error

/-!
Which objects were referenced and which were generated. Objects that are referenced and not yet
generated are handed out in sweeps, packages and names in the order of their first mark; an object
that a sweep hands out twice shows that generating it makes no progress.
-/

namespace TypeBridge

/-- An object of a package. -/
structure ObjectName where
  package : String
  name : String
deriving DecidableEq, Inhabited, Repr

/-- For every package the marked names, each with whether it was generated. -/
structure Marks where
  packages : Keyed (Keyed Bool) := ∅
deriving Inhabited

/-- The objects that a sweep handed out. -/
structure Sweep where
  tried : List ObjectName := []
deriving Inhabited

namespace Marks

/-- The names of a package. -/
def names (m : Marks) (package : String) : Keyed Bool := (m.packages.get? package).getD ∅

/-- The mark of an object: nothing, or whether it was generated. -/
def status (m : Marks) (o : ObjectName) : Option Bool := (m.names o.package).get? o.name

def isReferenced (m : Marks) (o : ObjectName) : Bool := (m.status o).isSome

def isGenerated (m : Marks) (o : ObjectName) : Bool := (m.status o).getD false

def setStatus (m : Marks) (o : ObjectName) (generated : Bool) : Marks :=
  ⟨m.packages.insert o.package ((m.names o.package).insert o.name generated)⟩

/-- Records a reference; an object that was generated stays so. -/
def reference (m : Marks) (o : ObjectName) : Marks := m.setStatus o (m.isGenerated o)

/-- Records that an object was generated. -/
def generate (m : Marks) (o : ObjectName) : Marks := m.setStatus o true

/-- The objects that are marked and not generated, in the order of their marks. -/
def waiting (m : Marks) : List ObjectName :=
  m.packages.entries.flatMap fun package =>
    (package.2.entries.filter fun entry => !entry.2).map fun entry => ⟨package.1, entry.1⟩

/-- Hands out objects one by one, and stops at the first that was handed out before. -/
def handOut (sweep : Sweep) : List ObjectName → Except Error Unit × Sweep
  | [] => (.ok (), sweep)
  | o :: rest =>
      if sweep.tried.contains o then (.error (.circularGeneration o.package o.name), sweep)
      else handOut ⟨o :: sweep.tried⟩ rest

/-- The waiting objects, unless the sweep has seen one of them already. -/
def remaining (m : Marks) (sweep : Sweep) : Except Error (List ObjectName) × Sweep :=
  let (handed, sweep) := handOut sweep m.waiting
  (handed.map fun _ => m.waiting, sweep)

end Marks

end TypeBridge
