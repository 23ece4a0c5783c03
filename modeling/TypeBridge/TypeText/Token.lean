import TypeBridge.Text.Basic

/-!
Tokens of Go type expressions such as `map[string]*time.Time`. Scanning takes the longest lexeme at
each place; a word is a keyword exactly when the whole lexeme is that keyword, and spaces between
tokens are dropped. Offsets count bytes.
-/

namespace TypeBridge.TypeText

inductive TokenKind where
  | star
  | bracketOpen
  | bracketClose
  | braceOpen
  | braceClose
  | comma
  | kwMap
  | kwChan
  | kwInterface
  | kwStruct
  | int
  | name
deriving DecidableEq, Repr, Inhabited

/-- A token with its text and the offset of its first byte. -/
structure Token where
  kind : TokenKind
  text : String
  start : Nat
deriving DecidableEq, Repr, Inhabited

/-- The offset after the last byte of a token. -/
def Token.stop (t : Token) : Nat := t.start + Text.byteLength t.text.toList

/-- What a parser was looking for. -/
inductive Wanted where
  | type
  | bracketOpen
  | bracketClose
  | braceOpen
  | braceClose
  | lengthOrClose
  | commaOrClose
  | nothing
deriving DecidableEq, Repr

def Wanted.wording : Wanted → String
  | type => "a type"
  | bracketOpen => "`[`"
  | bracketClose => "`]`"
  | braceOpen => "`\x7b`"
  | braceClose => "`\x7d`"
  | lengthOrClose => "`]` or an array length"
  | commaOrClose => "`,` or `]`"
  | nothing => "end of input"

/-- Why a text is not a type expression. -/
inductive TypeTextError where
  | garbage (offset : Nat)
  | unexpected (found : String) (offset : Nat) (wanted : Wanted)
  | unexpectedEnd (wanted : Wanted)
  | arrayLength (text : String)
  | qualifiedName (text : String)
deriving DecidableEq, Repr

def TypeTextError.message : TypeTextError → String
  | garbage offset => "unrecognized input at offset " ++ Text.digitString offset
  | unexpected found offset wanted =>
      "unexpected `" ++ found ++ "` at offset " ++ Text.digitString offset ++ ", expected " ++
        wanted.wording
  | unexpectedEnd wanted => "unexpected end of input, expected " ++ wanted.wording
  | arrayLength text => "invalid array length `" ++ text ++ "`"
  | qualifiedName text => "malformed qualified name `" ++ text ++ "`"

def isSpace (c : Char) : Bool := c == ' ' || c == '\t' || c == '\r' || c == '\n'

def isNameStart (c : Char) : Bool := c.isAlpha || c == '_'

/-- Import paths may contain slashes, dots and hyphens. -/
def isNameChar (c : Char) : Bool :=
  c.isAlphanum || c == '_' || c == '.' || c == '/' || c == '-'

/-- What the first character of a lexeme decides. -/
inductive Start where
  | space
  | mark (kind : TokenKind)
  | digit
  | letter
deriving DecidableEq, Repr

def markKind? (c : Char) : Option TokenKind :=
  if c = '*' then some .star
  else if c = '[' then some .bracketOpen
  else if c = ']' then some .bracketClose
  else if c = '\x7b' then some .braceOpen
  else if c = '\x7d' then some .braceClose
  else if c = ',' then some .comma
  else none

def Start.of? (c : Char) : Option Start :=
  if isSpace c then some .space
  else if c.isDigit then some .digit
  else if isNameStart c then some .letter
  else (markKind? c).map .mark

/-- Which characters continue a lexeme. -/
def Start.continues : Start → Char → Bool
  | space, c => isSpace c
  | mark _, _ => false
  | digit, c => c.isDigit
  | letter, c => isNameChar c

/-- The kind of a word. -/
def wordKind (word : List Char) : TokenKind :=
  if word = ['m', 'a', 'p'] then .kwMap
  else if word = ['c', 'h', 'a', 'n'] then .kwChan
  else if word = ['i', 'n', 't', 'e', 'r', 'f', 'a', 'c', 'e'] then .kwInterface
  else if word = ['s', 't', 'r', 'u', 'c', 't'] then .kwStruct
  else .name

/-- The kind of a finished lexeme; spaces are no token. -/
def Start.kind? : Start → List Char → Option TokenKind
  | space, _ => none
  | mark kind, _ => some kind
  | digit, _ => some .int
  | letter, word => some (wordKind word)

/-- Scans the characters from the given offset on. -/
def scan (offset : Nat) : List Char → Except TypeTextError (List Token)
  | [] => .ok []
  | c :: rest =>
      match Start.of? c with
      | none => .error (.garbage offset)
      | some start =>
          let lexeme := c :: rest.takeWhile start.continues
          match scan (offset + Text.byteLength lexeme) (rest.dropWhile start.continues) with
          | .error e => .error e
          | .ok tokens =>
              match start.kind? lexeme with
              | none => .ok tokens
              | some kind => .ok (⟨kind, String.ofList lexeme, offset⟩ :: tokens)
termination_by cs => cs.length
decreasing_by
  have := (List.dropWhile_sublist start.continues (l := rest)).length_le
  simp only [List.length_cons]
  omega

/-- The tokens of a text. -/
def tokens (source : String) : Except TypeTextError (List Token) := scan 0 source.toList

end TypeBridge.TypeText
