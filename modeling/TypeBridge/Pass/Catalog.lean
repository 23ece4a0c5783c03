import TypeBridge.Pass.Dangling
import TypeBridge.Pass.Forms
import TypeBridge.Pass.Modifiers
import TypeBridge.Pass.NullArms

/-!
The passes by name, and how several of them run: in the given order, up to the first that stops.
-/

namespace TypeBridge

/-- A named change of a graph. -/
structure Change where
  name : String
  run : Graph → Outcome Graph

namespace Graph

/-- Runs one change; what stops it is reported with its name. -/
def apply (r : Change) (g : Graph) : Outcome Graph := (r.run g).mapError (.pass r.name)

/-- Runs changes in order. -/
def applyAll (rs : List Change) (g : Graph) : Outcome Graph := Outcome.forEach apply rs g

end Graph

/-- The passes that come with the library. -/
inductive Pass where
  | exportTypes
  | readOnly
  | enumAsTypes
  | trimEnumPrefix
  | enumLists
  | simplifyOptional
  | notNullMaps
  | nullUnionSlices
  | interfaceToType
  | missingReferencesToAny
deriving DecidableEq, Inhabited, Repr

namespace Pass

/-- All passes, in the order in which they are best run. -/
def all : List Pass :=
  [exportTypes, readOnly, enumAsTypes, trimEnumPrefix, enumLists, simplifyOptional, notNullMaps,
   nullUnionSlices, interfaceToType, missingReferencesToAny]

def name : Pass → String
  | exportTypes => "ExportTypes"
  | readOnly => "ReadOnly"
  | enumAsTypes => "EnumAsTypes"
  | trimEnumPrefix => "TrimEnumPrefix"
  | enumLists => "EnumLists"
  | simplifyOptional => "SimplifyOptional"
  | notNullMaps => "NotNullMaps"
  | nullUnionSlices => "NullUnionSlices"
  | interfaceToType => "InterfaceToType"
  | missingReferencesToAny => "MissingReferencesToAny"

def ofName? (s : String) : Option Pass := all.find? fun pass => pass.name == s

def run : Pass → Graph → Outcome Graph
  | exportTypes, g => .done g.exportTypes
  | readOnly, g => .done g.readOnly
  | enumAsTypes, g => .done g.enumAsTypes
  | trimEnumPrefix, g => .done g.trimEnumPrefix
  | enumLists, g => g.enumLists
  | simplifyOptional, g => .done g.simplifyOptional
  | notNullMaps, g => .done g.notNullMaps
  | nullUnionSlices, g => .done g.nullUnionSlices
  | interfaceToType, g => .done g.interfaceToType
  | missingReferencesToAny, g => g.missingReferencesToAny

def change (pass : Pass) : Change := ⟨pass.name, pass.run⟩

end Pass

end TypeBridge
