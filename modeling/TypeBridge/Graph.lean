import TypeBridge.Keyed
import TypeBridge.Outcome

/-!
The finished graph of declarations, keyed by emitted names in the order of their creation, and its
rendering. A graph is rendered at most once, whether or not that succeeds, in an order computed from
the sorted keys.
-/

namespace TypeBridge

structure Graph where
  nodes : Keyed Declaration := ∅
  serialized : Bool := false
deriving Inhabited

namespace Graph

def get? (g : Graph) (key : String) : Option Declaration := g.nodes.get? key

def contains (g : Graph) (key : String) : Bool := g.nodes.contains key

def keys (g : Graph) : List String := g.nodes.keys

/-- Adds a declaration under a new key. -/
def define (g : Graph) (key : String) (d : Declaration) : Except Error Graph :=
  if g.contains key then .error (.duplicateNode key)
  else .ok { g with nodes := g.nodes.insert key d }

/-- Sets the declaration of a key; an existing key keeps its place. -/
def replace (g : Graph) (key : String) (d : Declaration) : Graph :=
  { g with nodes := g.nodes.insert key d }

/-- Removes a declaration; the others keep their order. -/
def remove (g : Graph) (key : String) : Graph := { g with nodes := g.nodes.erase key }

/-- Changes every declaration. -/
def mapNodes (g : Graph) (f : String → Declaration → Declaration) : Graph :=
  { g with nodes := g.nodes.mapValues f }

/-- Keys in ascending order of their code points. -/
def sortKeys (keys : List String) : List String := keys.mergeSort (fun a b => decide (a ≤ b))

/-- The texts of the declarations under some keys, each followed by a blank line. -/
def renderKeys (g : Graph) (printer : Printer) : List String → Except Error String
  | [] => .ok ""
  | key :: rest =>
      match g.get? key with
      | none => .error (.unknownNode key)
      | some d =>
          match printer.print d with
          | .error e => .error (.render key e)
          | .ok text => do return text ++ "\n\n" ++ (← renderKeys g printer rest)

/-- Renders the graph in an order computed from its sorted keys, and marks it as rendered. -/
def render (g : Graph) (printer : Printer) (order : List String → List String) :
    Except Error String × Graph :=
  if g.serialized then (.error .alreadySerialized, g)
  else
    let text := g.renderKeys printer (order (sortKeys g.keys))
    (text.map (printer.header ++ ·), { g with serialized := true })

end Graph

end TypeBridge
