import TypeBridge.Text.Basic

/-!
What comments and diagnostics of a package say to the converter. A directive `@typescript-ignore`
lists names up to the end of its line or of its comment; only the first directive of a comment
counts. A diagnostic about a missing import is turned into advice.
-/

namespace TypeBridge.Directive

/-- The text after the first occurrence of a word. -/
def afterFirst? (word : List Char) : List Char → Option (List Char)
  | [] => if word = [] then some [] else none
  | c :: rest =>
      if word.isPrefixOf (c :: rest) then some ((c :: rest).drop word.length)
      else afterFirst? word rest

/-- The text up to the end of the line or of the block comment. -/
def untilClose : List Char → List Char
  | [] => []
  | '*' :: '/' :: _ => []
  | c :: rest => if c = '\n' then [] else c :: untilClose rest

/-- An optional colon after the directive. -/
def dropColon : List Char → List Char
  | ':' :: rest => rest
  | rest => rest

def marker : String := "@typescript-ignore"

/-- The names that the first directive of a comment lists. -/
def ignoredBy (comment : String) : List String :=
  match afterFirst? marker.toList comment.toList with
  | none => []
  | some rest => Text.commaList (untilClose (dropColon rest))

/-- The names that directives list, comment by comment. -/
def ignoredTypes (comments : List String) : List String := comments.flatMap ignoredBy

def missingImport : String := "could not import"

/-- The package after the first occurrence of `could not import` that is followed by one space and
a word. -/
def missingPackage? : List Char → Option (List Char)
  | [] => none
  | c :: rest =>
      let here := (missingImport ++ " ").toList
      let word := ((c :: rest).drop here.length).takeWhile (fun d => !Text.isBlank d)
      if here.isPrefixOf (c :: rest) && !word.isEmpty then some word
      else missingPackage? rest

/-- A summary of a diagnostic of the type checker, with advice when an import is missing. -/
def errorHint (error : String) : String :=
  if (afterFirst? missingImport.toList error.toList).isNone then "parsing package"
  else match missingPackage? error.toList with
    | some package =>
        "parsing package, suggest running 'go get " ++ String.ofList package ++
          "' where calling the go generator to include the referenced package."
    | none =>
        "parsing package, import unavailable to generating code, " ++
          "try to add the package as a reference to the go generator"

end TypeBridge.Directive
