import TypeBridge.Declaration.Basic
import TypeBridge.Text.Basic

/-!
Reading types. The text of a type is cut into lexemes, and these are read by recursive descent with
one reader for each strength of binding: a union of intersections of operands, an operand with its
operators in front, and an atom with the brackets of arrays behind it. This is the grammar of types in
TypeScript, without what no type is printed with: comments, strings in single quotes, escapes by
number, fractions, functions and the like have no reading. Which letters beyond ASCII a name may have
and which words are kept from being names is left open.
-/

namespace TypeBridge.Reading

/-! ### Lexemes -/

/-- The letters beyond ASCII that words may start with and go on with, and the words that are not
names of types. -/
structure Alphabet where
  starts : Char → Bool
  continues : Char → Bool
  reserved : String → Bool

namespace Alphabet

def startsWord (a : Alphabet) (c : Char) : Bool :=
  c.isAlpha || c == '_' || c == '$' || (decide (0x7F < c.toNat) && a.starts c)

def continuesWord (a : Alphabet) (c : Char) : Bool :=
  c.isAlphanum || c == '_' || c == '$' || (decide (0x7F < c.toNat) && a.continues c)

end Alphabet

inductive Lexeme where
  | word (name : String)
  | number (value : Nat)
  | text (value : String)
  | mark (c : Char)
deriving DecidableEq

def marks : List Char :=
  ['|', '&', '(', ')', '[', ']', '\x7b', '\x7d', '<', '>', ',', ';', ':', '?', '-']

def isLayout (c : Char) : Bool := c == ' ' || c == '\n' || c == '\r' || c == '\t'

/-- What the letter of an escape stands for. All other characters stand for themselves, except where
an escape by number or a break of the line starts. -/
def escaped? (c : Char) : Option Char :=
  if c = 'n' then some '\n'
  else if c = 'r' then some '\r'
  else if c = 't' then some '\t'
  else if c = 'b' then some '\x08'
  else if c = 'f' then some '\x0C'
  else if c = 'v' then some '\x0B'
  else if c.isDigit || c == 'x' || c == 'u' || c == '\n' || c == '\r' || c == '\u2028' || c == '\u2029'
    then none
  else some c

/-- Reads a string up to the quote that ends it. -/
def readText : List Char → Option (List Char × List Char)
  | [] => none
  | '"' :: rest => some ([], rest)
  | '\\' :: c :: rest => do
      let plain ← escaped? c
      let (text, rest) ← readText rest
      return (plain :: text, rest)
  | c :: rest =>
      if c = '\\' ∨ c = '\n' ∨ c = '\r' then none
      else (readText rest).map fun read => (c :: read.1, read.2)

theorem readText_length {cs text rest : List Char} (h : readText cs = some (text, rest)) :
    rest.length < cs.length := by
  fun_induction readText cs generalizing text with
  | case1 => cases h
  | case2 => simp_all
  | case3 c more ih =>
      simp only [bind, Option.bind_eq_some_iff] at h
      obtain ⟨plain, _, ⟨read, left⟩, hread, hrest⟩ := h
      cases hrest
      have hshorter : left.length < more.length := ih hread
      simp only [List.length_cons]
      omega
  | case4 => cases h
  | case5 c more _ _ _ ih =>
      obtain ⟨⟨read, left⟩, hread, hrest⟩ := Option.map_eq_some_iff.mp h
      cases hrest
      have hshorter : left.length < more.length := ih hread
      simp only [List.length_cons]
      omega

/-- The value of digits; no number but zero starts with a zero. -/
def readNumber (digits : List Char) : Option Nat :=
  if digits.head? = some '0' ∧ digits ≠ ['0'] then none else some (Text.digitsValue digits)

/-- The lexemes of a text. -/
def lex (a : Alphabet) (cs : List Char) : Option (List Lexeme) :=
  match cs with
  | [] => some []
  | c :: rest =>
      if isLayout c then lex a rest
      else if a.startsWord c then
        (lex a (rest.dropWhile a.continuesWord)).map
          (.word (String.ofList (c :: rest.takeWhile a.continuesWord)) :: ·)
      else if c.isDigit then
        match readNumber (c :: rest.takeWhile Char.isDigit) with
        | none => none
        | some n => (lex a (rest.dropWhile Char.isDigit)).map (.number n :: ·)
      else if c = '"' then
        match _h : readText rest with
        | none => none
        | some (text, more) => (lex a more).map (.text (String.ofList text) :: ·)
      else if marks.contains c then (lex a rest).map (.mark c :: ·)
      else none
termination_by cs.length
decreasing_by
  · exact Nat.lt_succ_self _
  · exact Nat.lt_succ_of_le (List.dropWhile_sublist _).length_le
  · exact Nat.lt_succ_of_le (List.dropWhile_sublist _).length_le
  · exact Nat.lt_succ_of_lt (readText_length _h)
  · exact Nat.lt_succ_self _

/-! ### Readers -/

/-- Reads at the front of some lexemes, and returns those that are left. -/
abbrev Reader (α : Type) := List Lexeme → Option (α × List Lexeme)

/-- Passes a mark after what was read. -/
def closing {α : Type} (c : Char) (read : α × List Lexeme) : Option (α × List Lexeme) :=
  if read.2.head? = some (.mark c) then some (read.1, read.2.tail) else none

/-- Reads items with a mark between them, at most as many as `k`. -/
def separated (item : Reader Expr) (mark : Char) : Nat → Reader (List Expr)
  | 0, _ => none
  | k + 1, ts =>
      (item ts).bind fun first =>
        if first.2.head? = some (.mark mark) then
          (separated item mark k first.2.tail).map fun read => (first.1 :: read.1, read.2)
        else some ([first.1], first.2)

def keywords : List Keyword :=
  [.void, .any, .boolean, .number, .string, .undefined, .unknown, .never, .bigint, .object, .symbol]

/-- The words that are types by themselves. -/
def wordType? (w : String) : Option Expr :=
  if w = "null" then some .null
  else if w = "true" then some (.literal (.bool true))
  else if w = "false" then some (.literal (.bool false))
  else (keywords.find? (·.word == w)).map .keyword

def operator? (w : String) : Option Operator :=
  [Operator.readonly, .unique, .keyof].find? (·.word == w)

/-- The integers that a literal can hold. -/
def integer? (n : Int) : Option Expr :=
  if (Int64.ofInt n).toInt = n then some (.literal (.int (Int64.ofInt n))) else none

/-- The name of a member: a word, of any kind, or a string. -/
def memberName? : Lexeme → Option String
  | .word name => some name
  | .text name => some name
  | _ => none

/-- The word `readonly` before a name is a modifier. Anywhere else it is the name. -/
def readModifiers : List Lexeme → List Modifier × List Lexeme
  | .word w :: name :: rest =>
      if w = "readonly" ∧ (memberName? name).isSome then ([.readonly], name :: rest)
      else ([], .word w :: name :: rest)
  | ts => ([], ts)

/-- Reads a mark that may be missing. -/
def readOptional (c : Char) (ts : List Lexeme) : Bool × List Lexeme :=
  if ts.head? = some (.mark c) then (true, ts.tail) else (false, ts)

/-- Reads a member up to its semicolon. -/
def readMember (inner : Reader Expr) (ts : List Lexeme) : Option (Property × List Lexeme) := do
  let (modifiers, ts) := readModifiers ts
  let name ← ts.head?.bind memberName?
  let (optional, ts) := readOptional '?' ts.tail
  let (_, ts) ← closing ':' ((), ts)
  let (type, ts) ← inner ts
  closing ';' (⟨name, modifiers, optional, type, []⟩, ts)

/-- Reads members up to the brace that ends them, at most as many as `k`. -/
def readMembers (inner : Reader Expr) : Nat → Reader (List Property)
  | 0, _ => none
  | k + 1, ts =>
      if ts.head? = some (.mark '\x7d') then some ([], ts.tail)
      else do
        let (member, ts) ← readMember inner ts
        (readMembers inner k ts).map fun read => (member :: read.1, read.2)

/-- Reads the arguments of a name, if there are any. -/
def readArguments (inner : Reader Expr) (ts : List Lexeme) : Option (List Expr × List Lexeme) :=
  if ts.head? = some (.mark '<') then (separated inner ',' ts.length ts.tail).bind (closing '>')
  else some ([], ts)

/-- Reads the items of an array literal up to its bracket. -/
def readItems (inner : Reader Expr) (ts : List Lexeme) : Option (List Expr × List Lexeme) :=
  if ts.head? = some (.mark ']') then some ([], ts.tail)
  else (separated inner ',' ts.length ts).bind (closing ']')

/-- Reads a type that nothing but its own marks can separate. -/
def readAtom (a : Alphabet) (inner : Reader Expr) : Reader Expr
  | .word w :: rest =>
      match wordType? w with
      | some e => some (e, rest)
      | none =>
          if (operator? w).isSome || a.reserved w then none
          else (readArguments inner rest).map fun read => (.builtin w read.1, read.2)
  | .number n :: rest => (integer? n).map (·, rest)
  | .mark '-' :: .number n :: rest => (integer? (-n)).map (·, rest)
  | .text s :: rest => some (.literal (.string s), rest)
  | .mark '(' :: rest => (inner rest).bind (closing ')')
  | .mark '[' :: rest => (readItems inner rest).map fun read => (.arrayLiteral read.1, read.2)
  | .mark '\x7b' :: rest =>
      (readMembers inner rest.length rest).map fun read => (.typeLiteral read.1, read.2)
  | _ => none

/-- Makes an array of a type for each pair of brackets behind it. -/
def readBrackets : Expr → List Lexeme → Expr × List Lexeme
  | e, .mark '[' :: .mark ']' :: rest => readBrackets (.array e) rest
  | e, ts => (e, ts)

/-- Reads an atom and the brackets behind it. -/
def readBracketed (a : Alphabet) (inner : Reader Expr) : Reader Expr := fun ts =>
  (readAtom a inner ts).map fun read => readBrackets read.1 read.2

/-- Reads operators and their operand. -/
def readOperand (a : Alphabet) (inner : Reader Expr) : Reader Expr
  | .word w :: rest =>
      match operator? w with
      | some op => (readOperand a inner rest).map fun read => (.operator op read.1, read.2)
      | none => readBracketed a inner (.word w :: rest)
  | ts => readBracketed a inner ts

/-- Several types make a new one, and a single one is itself. -/
def combine (make : List Expr → Expr) : List Expr → Expr
  | [e] => e
  | es => make es

def readIntersection (a : Alphabet) (inner : Reader Expr) : Reader Expr := fun ts =>
  (separated (readOperand a inner) '&' ts.length ts).map fun read =>
    (combine .intersection read.1, read.2)

def readUnion (a : Alphabet) (inner : Reader Expr) : Reader Expr := fun ts =>
  (separated (readIntersection a inner) '|' ts.length ts).map fun read =>
    (combine .union read.1, read.2)

/-- Reads a type in which no more than `n` types lie inside each other. -/
def readType (a : Alphabet) : Nat → Reader Expr
  | 0 => fun _ => none
  | n + 1 => readUnion a (readType a n)

/-- Reads a text that is a type. -/
def parse (a : Alphabet) (s : String) : Option Expr := do
  let ts ← lex a s.toList
  match readType a ts.length ts with
  | some (e, []) => some e
  | _ => none

end TypeBridge.Reading
