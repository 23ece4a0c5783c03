import TypeBridge.Text.Basic

/-!
The arguments of the program. There are two commands: one converts a dump, the other lists the
passes. Arguments are read from left to right; a flag that takes a value waits for it, and whatever
else comes next, a flag or a further argument, shows that the value is missing.
-/

namespace TypeBridge.CommandLine

/-- Why arguments are refused, or answered with help instead of a run. -/
inductive UsageError where
  | nothingGiven
  | helpWanted
  | invalidSubcommand
  | missingArgument
  | unknownArgument
  | invalidValue
  | valueValidation
  | argumentConflict
  | tooManyValues
deriving DecidableEq, Repr

/-- Help that was asked for is a success. -/
def UsageError.exitCode : UsageError → Nat
  | helpWanted => 0
  | _ => 2

/-- How to convert a dump. -/
structure GenerateOptions where
  dump : String
  output : Option String := none
  passes : List String := []
  custom : List (String × String) := []
  exclude : List String := []
  standardMappings : Bool := false
deriving DecidableEq, Inhabited

inductive Command where
  | generate (options : GenerateOptions)
  | listPasses
deriving DecidableEq

/-- What takes a value. -/
inductive Slot where
  | dump
  | output
  | passes
  | custom
  | exclude
deriving DecidableEq, Repr

/-- The arguments of a conversion read so far. `pending` is the last value, or a flag that still
waits for one; it is taken in when the next argument has been recognized. -/
structure Reading where
  dump : Option String := none
  output : Option String := none
  passes : List String := []
  custom : List (String × String) := []
  exclude : List String := []
  standardMappings : Bool := false
  pending : Option (Slot × Option String) := none
  positionalSeen : Bool := false
  flagsEnded : Bool := false
deriving Inhabited

/-- A mapping `key=value`, cut at the first equals sign; neither side is blank. -/
def readMapping (raw : String) : Except UsageError (String × String) :=
  let cs := raw.toList
  let key := Text.trimChars (cs.takeWhile (· != '='))
  match cs.dropWhile (· != '=') with
  | [] => .error .valueValidation
  | _ :: rest =>
      let value := Text.trimChars rest
      if key.isEmpty || value.isEmpty then .error .valueValidation
      else .ok (String.ofList key, String.ofList value)

namespace Reading

/-- Takes a value in. A path is not empty, and the output is given once. -/
def assign (r : Reading) (slot : Slot) (value : String) : Except UsageError Reading :=
  match slot with
  | .dump => if value = "" then .error .invalidValue else .ok { r with dump := some value }
  | .output =>
      if r.output.isSome then .error .argumentConflict
      else if value = "" then .error .invalidValue
      else .ok { r with output := some value }
  | .passes => .ok { r with passes := r.passes ++ Text.commaList value.toList }
  | .custom => do return { r with custom := r.custom ++ [← readMapping value] }
  | .exclude => .ok { r with exclude := r.exclude ++ [value] }

/-- Takes the pending value in; a flag that still waits has no value. -/
def settle (r : Reading) : Except UsageError Reading :=
  match r.pending with
  | none => .ok r
  | some (_, none) => .error .invalidValue
  | some (slot, some value) => { r with pending := none }.assign slot value

/-- A flag that takes a value, with the value if it is attached. -/
def option (r : Reading) (slot : Slot) (attached : Option String) : Except UsageError Reading := do
  let r ← r.settle
  match attached with
  | some value => r.assign slot value
  | none => return { r with pending := some (slot, none) }

/-- An argument that is no flag and no value of one: the dump, once. -/
def positional (r : Reading) (arg : String) : Except UsageError Reading := do
  if r.positionalSeen then throw .unknownArgument
  let r ← r.settle
  return { r with pending := some (.dump, some arg), positionalSeen := true }

/-- The flag that turns the standard mappings on, once and without a value. -/
def switch (r : Reading) (attached : Option String) : Except UsageError Reading := do
  if attached.isSome then throw .tooManyValues
  let r ← r.settle
  if r.standardMappings then throw .argumentConflict
  return { r with standardMappings := true }

/-- The flag that asks for help. -/
def help (r : Reading) (attached : Option String) : Except UsageError Reading := do
  if attached.isSome then throw .tooManyValues
  let _ ← r.settle
  throw .helpWanted

/-- A flag after two hyphens. -/
def long (r : Reading) (name : String) (attached : Option String) : Except UsageError Reading :=
  match name with
  | "output" => r.option .output attached
  | "mutations" => r.option .passes attached
  | "custom" => r.option .custom attached
  | "exclude" => r.option .exclude attached
  | "standard-mappings" => r.switch attached
  | "help" => r.help attached
  | _ => .error .unknownArgument

/-- A flag after one hyphen, with a value attached to it or behind an equals sign. -/
def short (r : Reading) (flag : Char) (rest : List Char) : Except UsageError Reading :=
  let attached := match rest with
    | [] => none
    | '=' :: value => some (String.ofList value)
    | value => some (String.ofList value)
  if flag = 'o' then r.option .output attached
  else if flag = 'm' then r.option .passes attached
  else if flag = 'h' then r.help none
  else .error .unknownArgument

end Reading

/-- How an argument looks by itself: two hyphens alone, a flag after two hyphens, a flag after one
hyphen, or a word. A hyphen alone is a word. -/
inductive Shape where
  | escape
  | long (name : String) (attached : Option String)
  | short (flag : Char) (rest : List Char)
  | word

def Shape.of (arg : String) : Shape :=
  match arg.toList with
  | ['-', '-'] => .escape
  | '-' :: '-' :: cs =>
      let name := String.ofList (cs.takeWhile (· != '='))
      match cs.dropWhile (· != '=') with
      | [] => .long name none
      | _ :: value => .long name (some (String.ofList value))
  | '-' :: flag :: rest => .short flag rest
  | _ => .word

/-- Reads one argument of a conversion. -/
def Reading.step (r : Reading) (arg : String) : Except UsageError Reading :=
  if r.flagsEnded then r.positional arg
  else match Shape.of arg with
    | .escape => .ok { r with flagsEnded := true }
    | .long name attached => r.long name attached
    | .short flag rest => r.short flag rest
    | .word =>
        match r.pending with
        | some (slot, none) => .ok { r with pending := some (slot, some arg) }
        | _ => r.positional arg

/-- Reads the arguments of a conversion. -/
def readGenerate (args : List String) : Except UsageError GenerateOptions := do
  let r ← args.foldlM Reading.step {}
  let r ← r.settle
  match r.dump with
  | none => throw .missingArgument
  | some dump => return {
      dump := dump, output := r.output, passes := r.passes, custom := r.custom,
      exclude := r.exclude, standardMappings := r.standardMappings }

/-- What a command without options says to a flag. -/
def refuseFlag : Shape → UsageError
  | .long "help" none => .helpWanted
  | .long "help" (some _) => .tooManyValues
  | .short 'h' _ => .helpWanted
  | _ => .unknownArgument

/-- Reads the arguments of the command that lists passes: there are none. -/
def readListPasses : List String → Except UsageError Command
  | [] => .ok .listPasses
  | arg :: rest =>
      match Shape.of arg with
      | .escape => if rest.isEmpty then .ok .listPasses else .error .unknownArgument
      | shape => .error (refuseFlag shape)

def subcommands : List String := ["generate", "mutations", "help"]

/-- Help on a command. -/
def readHelp : List String → UsageError
  | [] => .helpWanted
  | [name] => if subcommands.contains name then .helpWanted else .invalidSubcommand
  | _ => .invalidSubcommand

/-- Reads the arguments of the program. -/
def readArguments : List String → Except UsageError Command
  | [] => .error .nothingGiven
  | "generate" :: rest => do return .generate (← readGenerate rest)
  | "mutations" :: rest => readListPasses rest
  | "help" :: rest => .error (readHelp rest)
  | arg :: rest =>
      match Shape.of arg with
      | .escape =>
          match rest with
          | [] => .error .nothingGiven
          | next :: _ =>
              if subcommands.contains next then .error .unknownArgument
              else .error .invalidSubcommand
      | .word => .error .invalidSubcommand
      | shape => .error (refuseFlag shape)

end TypeBridge.CommandLine
