import TypeBridge.Json.Reader
import TypeBridge.Source.Dump

/-!
The text of a dump. A program and its packages are read field by field, so what is unknown in them
is skipped and what is wrong with a field is found where the field stands. An object of a package is
read as a whole, apart from its kind, and decoded when its text is complete.
-/

namespace TypeBridge

open Json (Reader Plan skipSpaces mismatch readString readText readList readValue)

namespace PackageMode

/-- Refuses a name that is no mode. -/
def known (name : String) : Except ReadError String := do
  let mode ← ofModeName name
  return mode.name

/-- Reads a mode: a string, or an object with that string as its only name and null in it. Nothing
else can start a mode. -/
def reader (room : Nat) : Reader Json := fun cs =>
  match skipSpaces cs with
  | [] => .error .truncated
  | '"' :: rest => do
      let (name, rest) ← readString rest
      return (.string (← known name), rest)
  | '\x7b' :: rest => do
      if room = 0 then throw .malformed
      let (name, rest) ← Json.readName rest
      let name ← known name
      match skipSpaces (← Json.readColon rest) with
      | 'n' :: rest =>
          match skipSpaces (← Json.readWord ['u', 'l', 'l'] rest) with
          | [] => throw .truncated
          | '\x7d' :: rest => return (.string name, rest)
          | _ => throw .malformed
      | other => throw (mismatch other)
  | _ => .error .malformed

end PackageMode

namespace Object

/-- Reads the kind of an object. -/
def kindReader : Reader Json := fun cs => do
  let (kind, rest) ← readText cs
  if kinds.contains kind then return (.string kind, rest) else throw .shape

/-- An object has one kind; its other members are read as they are. -/
def plan (room : Nat) : Plan Json := fun done name =>
  if name ≠ "kind" then .ok (some (readValue room))
  else if done.any (fun member => member.1 == "kind") then .error .shape
  else .ok (some kindReader)

/-- Reads what follows the first item of an array. -/
def readOthers (room : Nat) : Reader (List Json) := fun cs =>
  match skipSpaces cs with
  | [] => .error .truncated
  | ']' :: rest => .ok ([], rest)
  | ',' :: rest => Json.readItemsFrom (readValue room) (rest.length + 1) [] rest
  | _ => .error .malformed

/-- Reads an object whose kind is known. In an array the kind comes first. -/
def treeReader (room : Nat) : Reader Json := fun cs =>
  match skipSpaces cs with
  | '[' :: rest => do
      if room = 0 then throw .malformed
      match skipSpaces rest with
      | ']' :: _ => throw .shape
      | rest =>
          let (kind, rest) ← kindReader rest
          let (others, rest) ← readOthers (room - 1) rest
          return (.array (kind :: others), rest)
  | '\x7b' :: rest => do
      if room = 0 then throw .malformed
      let (members, rest) ← Json.readMembers (plan (room - 1)) rest
      return (.object members, rest)
  | other => .error (mismatch other)

/-- Reads an object that can be decoded. -/
def reader (room : Nat) : Reader Json := fun cs => do
  let (tree, rest) ← treeReader room cs
  let _ ← Object.ofJson tree
  return (tree, rest)

end Object

namespace Package

/-- Reads one field of a package. -/
def fieldReader (room : Nat) (name : String) : Reader Json := fun cs =>
  match name with
  | "mode" => PackageMode.reader room cs
  | "objects" => do
      let (objects, rest) ← readList room Object.reader cs
      return (.array objects, rest)
  | "comments" | "errors" => do
      let (texts, rest) ← readList room (fun _ => readText) cs
      return (.array (texts.map .string), rest)
  | _ => do
      let (text, rest) ← readText cs
      return (.string text, rest)

def reader (room : Nat) : Reader Package := fun cs => do
  let (fields, rest) ← Json.readRecord room fieldNames fieldReader cs
  return (← Package.ofJson (.object fields), rest)

/-- Reads a package from its text. -/
def read (text : String) : Except ReadError Package :=
  Json.readDocument (reader Json.nestingLimit) text

end Package

namespace Program

def reader (room : Nat) : Reader Program := fun cs => do
  let (fields, rest) ← Json.readRecord room fieldNames
    (fun room _ => readList room Package.reader) cs
  match fields.lookup "packages" with
  | some packages => return (⟨packages⟩, rest)
  | none => throw .shape

/-- Reads a program from the text of a dump. -/
def read (text : String) : Except ReadError Program :=
  Json.readDocument (reader Json.nestingLimit) text

end Program

end TypeBridge
