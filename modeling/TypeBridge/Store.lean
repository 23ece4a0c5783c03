import TypeBridge.Graph

/-!
Declarations under construction. Constants of a type may be seen before the type itself, so an entry
may wait for its declaration while enum members are queued for it. Finishing a store attaches the
queued members in the order of their arrival: an alias with members becomes an enum.
-/

namespace TypeBridge

/-- A declaration, once there is one, and the enum members queued for it. -/
structure StoreEntry where
  node : Option Declaration := none
  pending : List EnumMember := []
deriving Inhabited

/-- Attaches one member to a declaration. -/
def attachMember (key : String) (node : Option Declaration) (member : EnumMember) :
    Except Error Declaration :=
  match node with
  | none => .error (.enumUpgrade key "no declaration")
  | some d =>
      match d.form with
      | .typeAlias name _ _ => .ok { d with form := .enumeration name [member] }
      | .enumeration name members => .ok { d with form := .enumeration name (members ++ [member]) }
      | form => .error (.enumUpgrade key form.label)

/-- Attaches members in order. -/
def attachMembers (key : String) (node : Option Declaration) :
    List EnumMember → Except Error (Option Declaration)
  | [] => .ok node
  | member :: rest => do attachMembers key (← attachMember key node member) rest

structure Store where
  entries : Keyed StoreEntry := ∅
deriving Inhabited

namespace Store

def entry (s : Store) (key : String) : StoreEntry := (s.entries.get? key).getD {}

def get? (s : Store) (key : String) : Option Declaration := (s.entry key).node

def contains (s : Store) (key : String) : Bool := s.entries.contains key

/-- Adds a declaration under a key that nothing was recorded for. -/
def define (s : Store) (key : String) (d : Declaration) : Except Error Store :=
  if s.contains key then .error (.duplicateNode key)
  else .ok ⟨s.entries.insert key { node := some d }⟩

/-- Adds a declaration that queued members may be waiting for. -/
def fill (s : Store) (key : String) (d : Declaration) : Except Error Store :=
  if (s.entry key).node.isSome then .error (.duplicateNode key)
  else .ok ⟨s.entries.insert key { s.entry key with node := some d }⟩

/-- Sets the declaration of a key; queued members stay. -/
def replace (s : Store) (key : String) (d : Declaration) : Store :=
  ⟨s.entries.insert key { s.entry key with node := some d }⟩

/-- Queues members for a key, which need not have a declaration yet. -/
def queue (s : Store) (key : String) (members : List EnumMember) : Store :=
  ⟨s.entries.insert key { s.entry key with pending := (s.entry key).pending ++ members }⟩

/-- The finished declaration of an entry. -/
def finishEntry (key : String) (e : StoreEntry) : Except Error Declaration := do
  match ← attachMembers key e.node e.pending with
  | some d => return d
  | none => throw (.enumUpgrade key "no declaration")

/-- The finished declarations of entries, in order. -/
def finishEntries : List (String × StoreEntry) → Except Error (List (String × Declaration))
  | [] => .ok []
  | (key, e) :: rest => do
      let d ← finishEntry key e
      return (key, d) :: (← finishEntries rest)

/-- Attaches all queued members and gives the finished graph. -/
def finalize (s : Store) : Except Error Graph := do
  return { nodes := Keyed.ofList (← finishEntries s.entries.entries) }

end Store

end TypeBridge
