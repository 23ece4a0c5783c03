import TypeBridge.CommandLine.Arguments
import TypeBridge.Conversion
import TypeBridge.Pass.Catalog
import TypeBridge.Source.DumpText

/-!
What the program does with its arguments and the text of a dump: convert, run the passes, render,
and print the result or save it. Reading and writing files is left to the caller, who reports how it
went.
-/

namespace TypeBridge.CommandLine

/-- Why a file cannot be read or written. -/
inductive FileError where
  | notFound
  | notDirectory
  | isDirectory
  | nameTooLong
  | other (wording : String)
deriving DecidableEq, Repr

def FileError.message : FileError → String
  | notFound => "No such file or directory (os error 2)"
  | notDirectory => "Not a directory (os error 20)"
  | isDirectory => "Is a directory (os error 21)"
  | nameTooLong => "File name too long (os error 36)"
  | other wording => wording

/-- Why a conversion was not carried out. -/
inductive RunError where
  | read (path : String) (cause : FileError)
  | write (path : String) (cause : FileError)
  | dump
  | unknownPass (name : String)
  | convert (cause : Error)

namespace RunError

def message : RunError → String
  | read path _ => "failed to read " ++ path
  | write path _ => "failed to write " ++ path
  | dump => "invalid dump"
  | unknownPass name =>
      "unknown mutation `" ++ name ++ "`, run `gots mutations` for the list"
  | convert cause => cause.message

def causes : RunError → List String
  | read _ cause => [cause.message]
  | write _ cause => [cause.message]
  | convert cause => cause.causes
  | _ => []

/-- The lines that tell the user about an error and its causes. -/
def report (e : RunError) : String :=
  "error: " ++ e.message ++ "\n" ++
    String.join (e.causes.map fun cause => "  caused by: " ++ cause ++ "\n")

end RunError

/-- Finds passes by name. -/
def findPasses (names : List String) : Except RunError (List Pass) :=
  names.mapM fun name =>
    match Pass.ofName? name with
    | some pass => .ok pass
    | none => .error (.unknownPass name)

/-- What the options say about a workspace, before the dump is added. -/
def GenerateOptions.workspace (o : GenerateOptions) : Except Error Workspace := do
  let w : Workspace := {}
  let w := if o.standardMappings then w.override TypeOverride.standard else w
  let w ← w.overrideTexts o.custom
  return o.exclude.foldl Workspace.exclude w

/-- Converts a program, runs the passes and renders the result. -/
def GenerateOptions.convert (o : GenerateOptions) (passes : List Pass) (program : Program) :
    Except Error String := do
  let w ← o.workspace
  let w ← (w.addProgram program).result
  let g ← w.convert.1
  let g ← (g.applyAll (passes.map Pass.change)).result
  (g.render (Style.printer {}) id).1

/-- The text generated from the text of a dump. The passes are looked up before anything runs. -/
def GenerateOptions.generate (o : GenerateOptions) (dump : String) : Except RunError String := do
  let passes ← findPasses o.passes
  match Program.read dump with
  | .error _ => throw .dump
  | .ok program =>
      match o.convert passes program with
      | .ok text => return text
      | .error e => throw (.convert e)

/-- What is left to do for the caller. -/
inductive Response where
  | print (text : String)
  | save (path text : String)
  | fail (e : RunError)

/-- Carries out a conversion, given the dump or why it cannot be read. -/
def GenerateOptions.respond (o : GenerateOptions) (dump : Except FileError String) : Response :=
  match dump with
  | .error e => .fail (.read o.dump e)
  | .ok dump =>
      match o.generate dump with
      | .error e => .fail e
      | .ok text =>
          match o.output with
          | some path => .save path text
          | none => .print text

/-- The names of the passes, one to a line. -/
def passList : String := String.join (Pass.all.map fun pass => pass.name ++ "\n")

end TypeBridge.CommandLine
