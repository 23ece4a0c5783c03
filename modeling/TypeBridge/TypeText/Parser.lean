import TypeBridge.Source.Basic
import TypeBridge.TypeText.Token

/-!
The parser of Go type expressions. A type is a pointer, a slice, an array, a map, a channel, an
empty interface or struct, or a name with optional type arguments; a qualified name keeps the
whole path of its package. Every call consumes a token before it calls another, so the number of
tokens bounds the recursion, and running out of it coincides with running out of tokens.
-/

namespace TypeBridge.TypeText

/-- Complains about the next token, or about the end of the tokens. -/
def complain (wanted : Wanted) : List Token → TypeTextError
  | [] => .unexpectedEnd wanted
  | token :: _ => .unexpected token.text token.start wanted

/-- Takes one token of the given kind. -/
def expect (kind : TokenKind) (wanted : Wanted) : List Token → Except TypeTextError (List Token)
  | [] => .error (.unexpectedEnd wanted)
  | token :: rest =>
      if token.kind = kind then .ok rest else .error (complain wanted (token :: rest))

/-- Takes an opening and a closing brace. -/
def expectBraces (ts : List Token) : Except TypeTextError (List Token) := do
  expect .braceClose .braceClose (← expect .braceOpen .braceOpen ts)

/-- The length that an integer token denotes, if it fits in a word. -/
def arrayLength (text : String) : Except TypeTextError UInt64 :=
  let length := Text.digitsValue text.toList
  if length < UInt64.size then .ok (.ofNat length) else .error (.arrayLength text)

/-- Cuts a name at its last dot. -/
def splitLastDot (cs : List Char) : Option (List Char × List Char) :=
  let last := (cs.reverse.takeWhile (· != '.')).reverse
  if last.length = cs.length then none
  else some (cs.take (cs.length - last.length - 1), last)

/-- The type that a name with its arguments denotes. -/
def resolveName (text : String) (args : List SourceType) : Except TypeTextError SourceType :=
  match BasicKind.ofSpelling? text, args with
  | some kind, [] => .ok (.basic kind)
  | _, _ =>
      match splitLastDot text.toList with
      | none => .ok (.named ⟨none, text, args, none⟩)
      | some (package, name) =>
          if package = [] ∨ name = [] ∨ '/' ∈ name then .error (.qualifiedName text)
          else .ok (.named ⟨some (String.ofList package), String.ofList name, args, none⟩)

mutual

/-- Parses a type at the front of the tokens. -/
def parseType : Nat → List Token → Except TypeTextError (SourceType × List Token)
  | 0, _ => .error (.unexpectedEnd .type)
  | _, [] => .error (.unexpectedEnd .type)
  | fuel + 1, token :: ts =>
      match token.kind with
      | .star => do
          let (elem, ts) ← parseType fuel ts
          return (.pointer elem, ts)
      | .bracketOpen =>
          match ts with
          | ⟨.bracketClose, _, _⟩ :: ts => do
              let (elem, ts) ← parseType fuel ts
              return (.slice elem, ts)
          | ⟨.int, text, _⟩ :: ts => do
              let length ← arrayLength text
              let ts ← expect .bracketClose .bracketClose ts
              let (elem, ts) ← parseType fuel ts
              return (.array length elem, ts)
          | ts => .error (complain .lengthOrClose ts)
      | .kwMap => do
          let ts ← expect .bracketOpen .bracketOpen ts
          let (key, ts) ← parseType fuel ts
          let ts ← expect .bracketClose .bracketClose ts
          let (value, ts) ← parseType fuel ts
          return (.map key value, ts)
      | .kwChan => do
          let (elem, ts) ← parseType fuel ts
          return (.chan elem, ts)
      | .kwInterface => do return (.emptyInterface, ← expectBraces ts)
      | .kwStruct => do return (.struct [], ← expectBraces ts)
      | .name => do
          let (args, ts) ← parseArgs fuel ts
          return (← resolveName token.text args, ts)
      | _ => .error (complain .type (token :: ts))

/-- Parses the type arguments after a name, if a bracket opens them. -/
def parseArgs : Nat → List Token → Except TypeTextError (List SourceType × List Token)
  | fuel + 1, ⟨.bracketOpen, _, _⟩ :: ts => do
      let (first, ts) ← parseType fuel ts
      let (others, ts) ← parseMoreArgs fuel ts
      return (first :: others, ts)
  | _, ts => .ok ([], ts)

/-- Parses further type arguments up to the closing bracket. -/
def parseMoreArgs : Nat → List Token → Except TypeTextError (List SourceType × List Token)
  | fuel + 1, ⟨.comma, _, _⟩ :: ts => do
      let (next, ts) ← parseType fuel ts
      let (others, ts) ← parseMoreArgs fuel ts
      return (next :: others, ts)
  | _, ⟨.bracketClose, _, _⟩ :: ts => .ok ([], ts)
  | _, ts => .error (complain .commaOrClose ts)

end

/-- Parses a sequence of tokens that is one type. -/
def parseTokens (ts : List Token) : Except TypeTextError SourceType := do
  let (type, rest) ← parseType ts.length ts
  match rest with
  | [] => return type
  | rest => throw (complain .nothing rest)

/-- Parses a complete type expression. -/
def parse (source : String) : Except TypeTextError SourceType := do
  parseTokens (← tokens source)

end TypeBridge.TypeText
