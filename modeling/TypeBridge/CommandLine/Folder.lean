import TypeBridge.CommandLine.Run
import TypeBridge.Text.Basic

/-!
A run without a disk. The files of a folder are kept as texts, paths are followed as a file system
follows them, and the outcome of a run is what it prints, how it exits and the folder it leaves. A
path is followed name by name: what comes before a name has to be a folder that exists. Of the world
around the folder nothing is known but that it is there, and that the null device takes everything
and holds nothing.
-/

namespace TypeBridge.CommandLine

/-- The files of a folder and of the folders in it, by their paths. -/
structure Folder where
  files : Keyed String := ∅
deriving Inhabited

/-- Where a path has led so far: to the names passed inside the folder, or out of it. -/
inductive Place where
  | inside (names : List String)
  | outside
deriving DecidableEq, Repr

/-- The names of a path; two slashes in a row, or one at the end, have an empty name between. -/
def pathNames (path : String) : List String :=
  (Text.splitChars '/' path.toList).map String.ofList

/-- The longest name and the longest path, in bytes. -/
def nameLimit : Nat := 255

def pathLimit : Nat := 4095

def isLongerThan (limit : Nat) (s : String) : Bool := limit < Text.byteLength s.toList

def nullDevice : String := "/dev/null"

namespace Folder

/-- The path of a file from the folder. -/
def pathOf (names : List String) : String := String.intercalate "/" names

def file? (f : Folder) : Place → Option String
  | .inside names => f.files.get? (pathOf names)
  | .outside => none

/-- Whether a place is a folder: the folder itself, or one that a file lies in. -/
def isFolder (f : Folder) : Place → Bool
  | .outside => true
  | .inside [] => true
  | .inside names => f.files.keys.any fun path =>
      let inner := pathNames path
      names.isPrefixOf inner && names.length < inner.length

/-- The place of a name in a folder; there need not be anything. -/
def child (place : Place) (name : String) : Place :=
  match place with
  | .inside names => .inside (names ++ [name])
  | .outside => .outside

/-- The folder around a place. -/
def parent : Place → Place
  | .inside [] => .outside
  | .inside names => .inside names.dropLast
  | .outside => .outside

/-- Whether there is a file or a folder of a name. Nothing is known of names outside. -/
def holds (f : Folder) (place : Place) (name : String) : Bool :=
  match place with
  | .outside => false
  | place => (f.file? (child place name)).isSome || f.isFolder (child place name)

/-- Follows one name. -/
def step (f : Folder) (place : Place) (name : String) : Except FileError Place :=
  if !f.isFolder place then .error .notDirectory
  else if name = "" ∨ name = "." then .ok place
  else if name = ".." then .ok (parent place)
  else if isLongerThan nameLimit name then .error .nameTooLong
  else if f.holds place name then .ok (child place name)
  else .error .notFound

/-- Where a path starts, and the names to follow from there. -/
def start (path : String) : Place × List String :=
  match pathNames path with
  | "" :: names => (.outside, names)
  | names => (.inside [], names)

/-- A path can be followed if it is not empty and not too long. -/
def checkPath (path : String) : Except FileError Unit :=
  if path = "" then .error .notFound
  else if isLongerThan pathLimit path then .error .nameTooLong
  else .ok ()

/-- Reads the file at a path. -/
def read (f : Folder) (path : String) : Except FileError String := do
  checkPath path
  if path = nullDevice then return ""
  let (place, names) := start path
  let place ← names.foldlM f.step place
  match f.file? place with
  | some text => return text
  | none => throw .isDirectory

/-- Writes the file of a name in a place. A name that ends in a slash can only be a folder's. -/
def put (f : Folder) (place : Place) (name : String) (slash : Bool) (text : String) :
    Except FileError Folder :=
  if !f.isFolder place then .error .notDirectory
  else if slash ∨ name = "" ∨ name = "." ∨ name = ".." then .error .isDirectory
  else if isLongerThan nameLimit name then .error .nameTooLong
  else match child place name with
    | .outside => .ok f
    | .inside names =>
        if f.isFolder (.inside names) then .error .isDirectory
        else .ok { f with files := f.files.insert (pathOf names) text }

/-- Writes a text to the file at a path, which is created if need be. -/
def write (f : Folder) (path text : String) : Except FileError Folder := do
  checkPath path
  if path = nullDevice then return f
  let (place, names) := start path
  let given := (names.reverse.dropWhile (· == "")).reverse
  let place ← given.dropLast.foldlM f.step place
  f.put place (given.getLastD "") (given.length < names.length) text

/-- The files of a folder that another one does not have with the same text. -/
def changesSince (f before : Folder) : List (String × String) :=
  f.files.entries.filter fun file => before.files.get? file.1 ≠ some file.2

end Folder

/-- What a run leaves behind. -/
structure Ending where
  exitCode : Nat
  stdout : String := ""
  stderr : String := ""
  folder : Folder

/-- The ending of a run that failed; the folder is as it was. -/
def RunError.ending (e : RunError) (f : Folder) : Ending :=
  { exitCode := 1, stderr := e.report, folder := f }

/-- Carries out a conversion in a folder. A hyphen stands for the standard input. -/
def GenerateOptions.runIn (o : GenerateOptions) (f : Folder) (stdin : String) : Ending :=
  match o.respond (if o.dump = "-" then .ok stdin else f.read o.dump) with
  | .fail e => e.ending f
  | .print text => { exitCode := 0, stdout := text, folder := f }
  | .save path text =>
      match f.write path text with
      | .ok after => { exitCode := 0, folder := after }
      | .error e => (RunError.write path e).ending f

/-- Carries out a command in a folder. -/
def Command.runIn (c : Command) (f : Folder) (stdin : String) : Ending :=
  match c with
  | .generate o => o.runIn f stdin
  | .listPasses => { exitCode := 0, stdout := passList, folder := f }

end TypeBridge.CommandLine
