import TypeBridge.Json.Scalar

/-!
JSON text, read from left to right: the first thing that is wrong decides what is said about a text.
Arrays and objects are read with a reader for what they hold, so that a format can check its values
while it reads them. What nobody asks for is skipped: it has to follow the grammar, and nothing else
is asked of it, not even a bound on its nesting.
-/

namespace TypeBridge.Json

variable {α : Type}

mutual

/-- Skips one value. At most two calls stand at one character, one for the items and one for the
item that starts there, so twice the number of characters bounds the calls. -/
def skipValueWithin : Nat → List Char → Except ReadError (List Char)
  | 0, _ => .error .truncated
  | fuel + 1, cs =>
      match skipSpaces cs with
      | [] => .error .truncated
      | 'n' :: rest => readWord ['u', 'l', 'l'] rest
      | 't' :: rest => readWord ['r', 'u', 'e'] rest
      | 'f' :: rest => readWord ['a', 'l', 's', 'e'] rest
      | '"' :: rest => skipString rest
      | '[' :: rest =>
          match skipSpaces rest with
          | ']' :: more => .ok more
          | more => skipItems fuel more
      | '\x7b' :: rest =>
          match skipSpaces rest with
          | '\x7d' :: more => .ok more
          | more => skipMembers fuel more
      | '-' :: rest => skipNumber rest
      | c :: rest => if c.isDigit then skipNumber (c :: rest) else .error .malformed

/-- Skips the items of an array from the first one on. -/
def skipItems : Nat → List Char → Except ReadError (List Char)
  | 0, _ => .error .truncated
  | fuel + 1, cs => do
      match skipSpaces (← skipValueWithin fuel cs) with
      | [] => throw .truncated
      | ',' :: more => skipItems fuel more
      | ']' :: more => return more
      | _ => throw .malformed

/-- Skips the members of an object from the first one on. -/
def skipMembers : Nat → List Char → Except ReadError (List Char)
  | 0, _ => .error .truncated
  | fuel + 1, cs =>
      match skipSpaces cs with
      | [] => .error .truncated
      | '"' :: rest => do
          match skipSpaces (← skipString rest) with
          | [] => throw .truncated
          | ':' :: rest =>
              match skipSpaces (← skipValueWithin fuel rest) with
              | [] => throw .truncated
              | ',' :: more => skipMembers fuel more
              | '\x7d' :: more => return more
              | _ => throw .malformed
          | _ => throw .malformed
      | _ => .error .malformed

end

/-- Skips one value. -/
def skipValue (cs : List Char) : Except ReadError (List Char) :=
  skipValueWithin (2 * cs.length + 2) cs

/-- Reads the items of an array from the first one on. `done` holds those read, last first; each
item consumes a character, so the number of characters bounds the items. -/
def readItemsFrom (item : Reader α) : Nat → List α → Reader (List α)
  | 0, _, _ => .error .truncated
  | fuel + 1, done, cs =>
      match item cs with
      | .error e => .error e
      | .ok (value, rest) =>
          match skipSpaces rest with
          | [] => .error .truncated
          | ',' :: more => readItemsFrom item fuel (value :: done) more
          | ']' :: more => .ok ((value :: done).reverse, more)
          | _ => .error .malformed

/-- Reads the items of an array after its opening bracket. -/
def readItems (item : Reader α) : Reader (List α) := fun cs =>
  match skipSpaces cs with
  | ']' :: more => .ok ([], more)
  | more => readItemsFrom item (more.length + 1) [] more

/-- Reads the name of a member, which is a string and can be nothing else. -/
def readName : Reader String := fun cs =>
  match skipSpaces cs with
  | [] => .error .truncated
  | '"' :: rest => readString rest
  | _ => .error .malformed

/-- Takes a colon. -/
def readColon (cs : List Char) : Except ReadError (List Char) :=
  match skipSpaces cs with
  | [] => .error .truncated
  | ':' :: rest => .ok rest
  | _ => .error .malformed

/-- What to do with a member, given the members read so far, last first, and its name: refuse it,
skip it or read it. -/
abbrev Plan (α : Type) := List (String × α) → String → Except ReadError (Option (Reader α))

/-- Reads the value of a member by a plan and adds the member to those read. -/
def readMember (plan : Plan α) (done : List (String × α)) (name : String) :
    Reader (List (String × α)) := fun cs => do
  match ← plan done name with
  | none => return (done, ← skipValue (← readColon cs))
  | some reader =>
      let (value, rest) ← reader (← readColon cs)
      return ((name, value) :: done, rest)

/-- Reads the members of an object from the first one on. -/
def readMembersFrom (plan : Plan α) : Nat → List (String × α) → Reader (List (String × α))
  | 0, _, _ => .error .truncated
  | fuel + 1, done, cs =>
      match readName cs with
      | .error e => .error e
      | .ok (name, rest) =>
          match readMember plan done name rest with
          | .error e => .error e
          | .ok (done, rest) =>
              match skipSpaces rest with
              | [] => .error .truncated
              | ',' :: more => readMembersFrom plan fuel done more
              | '\x7d' :: more => .ok (done.reverse, more)
              | _ => .error .malformed

/-- Reads the members of an object after its opening brace, in order. -/
def readMembers (plan : Plan α) : Reader (List (String × α)) := fun cs =>
  match skipSpaces cs with
  | '\x7d' :: more => .ok ([], more)
  | more => readMembersFrom plan (more.length + 1) [] more

/-- Reads one value that is nested at most `room` deep. -/
def readValue : Nat → Reader Json
  | room, cs =>
      match skipSpaces cs with
      | '[' :: rest =>
          match room with
          | 0 => .error .malformed
          | room + 1 => do
              let (items, rest) ← readItems (readValue room) rest
              return (.array items, rest)
      | '\x7b' :: rest =>
          match room with
          | 0 => .error .malformed
          | room + 1 => do
              let (members, rest) ← readMembers (fun _ _ => .ok (some (readValue room))) rest
              return (.object members, rest)
      | cs => readScalar cs

/-- The deepest nesting of arrays and objects that is read. -/
def nestingLimit : Nat := 127

/-- Reads a document: one value with nothing but spaces around it. -/
def readDocument (reader : Reader α) (text : String) : Except ReadError α := do
  let (value, rest) ← reader text.toList
  if (skipSpaces rest).isEmpty then return value else throw .malformed

/-- Reads any document. -/
def parse (text : String) : Except ReadError Json := readDocument (readValue nestingLimit) text

/-! Readers for values of one kind. -/

/-- Reads a string. -/
def readText : Reader String := fun cs =>
  match skipSpaces cs with
  | '"' :: rest => readString rest
  | other => .error (mismatch other)

/-- Reads an array, whose items have one level of nesting less. -/
def readList (room : Nat) (item : Nat → Reader α) : Reader (List α) := fun cs =>
  match skipSpaces cs with
  | '[' :: rest => if room = 0 then .error .malformed else readItems (item (room - 1)) rest
  | other => .error (mismatch other)

/-- Reads the fields of a record from an array, as far as there are any; the array ends with the
last field at the latest. -/
def readFields (field : String → Reader α) : Bool → List String → Reader (List (String × α))
  | _, [], cs =>
      match skipSpaces cs with
      | [] => .error .truncated
      | ']' :: more => .ok ([], more)
      | _ => .error .malformed
  | first, name :: names, cs => do
      let start ← match skipSpaces cs, first with
        | [], _ => throw .truncated
        | ']' :: more, _ => return ([], more)
        | start, true => pure start
        | ',' :: start, false => pure start
        | _, false => throw .malformed
      let (value, rest) ← field name start
      let (others, rest) ← readFields field false names rest
      return ((name, value) :: others, rest)

/-- A known field may stand once in a record; what is unknown is skipped. -/
def fieldPlan (names : List String) (field : String → Reader α) : Plan α := fun done name =>
  if !names.contains name then .ok none
  else if done.any (fun member => member.1 == name) then .error .shape
  else .ok (some (field name))

/-- Reads the fields of a record, which is an object or an array. -/
def readRecord (room : Nat) (names : List String) (field : Nat → String → Reader α) :
    Reader (List (String × α)) := fun cs =>
  match skipSpaces cs with
  | '[' :: rest =>
      if room = 0 then .error .malformed else readFields (field (room - 1)) true names rest
  | '\x7b' :: rest =>
      if room = 0 then .error .malformed
      else readMembers (fieldPlan names (field (room - 1))) rest
  | other => .error (mismatch other)

end TypeBridge.Json
