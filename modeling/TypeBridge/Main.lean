import TypeBridge.CommandLine.Run

/-!
The program: reads its arguments and files, and prints or saves what the library answers.
-/

open TypeBridge TypeBridge.CommandLine

/-- Whether an error has a number; some operations report it with the opposite sign. -/
def hasCode (number code : UInt32) : Bool := code = number || code = 0 - number

/-- A failed file operation in the words of the library. -/
def fileError (e : IO.Error) : FileError :=
  match e with
  | .noFileOrDirectory _ _ _ => .notFound
  | .inappropriateType _ code _ => if hasCode 21 code then .isDirectory else .notDirectory
  | .invalidArgument _ code details =>
      if hasCode 36 code then .nameTooLong else .other details
  | e => .other (toString e)

/-- Reads the dump from the standard input or from a file. -/
def readDump (path : String) : IO (Except FileError String) := do
  try
    if path = "-" then return .ok (← (← IO.getStdin).readToEnd)
    return .ok (← IO.FS.readFile path)
  catch e => return .error (fileError e)

def writeOutput (path text : String) : IO (Option FileError) := do
  try
    IO.FS.writeFile path text
    return none
  catch e => return some (fileError e)

/-- Prints an error and its causes. -/
def reportError (e : RunError) : IO UInt32 := do
  IO.eprint e.report
  return 1

def runGenerate (o : GenerateOptions) : IO UInt32 := do
  match o.respond (← readDump o.dump) with
  | .fail e => reportError e
  | .print text => do
      IO.print text
      return 0
  | .save path text =>
      match ← writeOutput path text with
      | none => return 0
      | some e => reportError (.write path e)

def usage : String :=
  "usage: gots generate <DUMP> [-o FILE] [-m LIST] [--custom TYPE=GO_TYPE] [--exclude TYPE] " ++
    "[--standard-mappings]\n       gots mutations\n"

def main (args : List String) : IO UInt32 := do
  match readArguments args with
  | .error e => do
      if e.exitCode = 0 then IO.print usage else IO.eprint usage
      return e.exitCode.toUInt32
  | .ok .listPasses => do
      IO.print passList
      return 0
  | .ok (.generate o) => runGenerate o
