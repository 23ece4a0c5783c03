import TypeBridge.Double

/-!
JSON values as trees. Integers are distinct from floating-point numbers, and an object keeps its
members as written, repeated names included, so that a reader of the tree can tell a repeated member
from a single one.
-/

namespace TypeBridge

inductive Json where
  | null
  | bool (value : Bool)
  | integer (value : Int)
  | float (value : Double)
  | string (value : String)
  | array (items : List Json)
  | object (members : List (String × Json))
deriving Inhabited

/-- Why a text or a tree is refused: the text ends too early, it is not JSON within the limits of
the format, or it is JSON of another shape than wanted. -/
inductive ReadError where
  | truncated
  | malformed
  | shape
deriving DecidableEq, Repr

namespace Json

mutual

/-- How many levels of values a tree has. -/
def depth : Json → Nat
  | .array items => depthItems items + 1
  | .object members => depthMembers members + 1
  | _ => 1

def depthItems : List Json → Nat
  | [] => 0
  | item :: rest => max (depth item) (depthItems rest)

def depthMembers : List (String × Json) → Nat
  | [] => 0
  | (_, value) :: rest => max (depth value) (depthMembers rest)

end

end Json

end TypeBridge
