import TypeBridge.Json.Numeral
import TypeBridge.Text.Basic

/-!
The scalars of JSON text: words, strings and numbers. A scalar that is read has a value, so its
number has to be in range and its surrogates have to be paired; a scalar that is skipped only has to
follow the grammar. Reading stops at the first character that cannot go on, and tells a text that
ends too early from one that goes wrong. A skipped number is never too short, only wrong.
-/

namespace TypeBridge.Json

/-- A reader takes something off the front of a text and leaves the rest. -/
abbrev Reader (α : Type) := List Char → Except ReadError (α × List Char)

/-- The four characters that may stand between tokens. -/
def isSpace (c : Char) : Bool := c == ' ' || c == '\t' || c == '\n' || c == '\r'

def skipSpaces (cs : List Char) : List Char := cs.dropWhile isSpace

/-- Reads the rest of a word such as `null`. -/
def readWord : List Char → List Char → Except ReadError (List Char)
  | [], rest => .ok rest
  | _ :: _, [] => .error .truncated
  | w :: word, c :: rest => if c = w then readWord word rest else .error .malformed

/-! Strings. -/

def hexValue? (c : Char) : Option Nat :=
  if c.isDigit then some (c.toNat - '0'.toNat)
  else if 'a' ≤ c ∧ c ≤ 'f' then some (c.toNat - 'a'.toNat + 10)
  else if 'A' ≤ c ∧ c ≤ 'F' then some (c.toNat - 'A'.toNat + 10)
  else none

/-- The value of four hexadecimal digits. -/
def hexUnit? (a b c d : Char) : Option Nat := do
  let a ← hexValue? a
  let b ← hexValue? b
  let c ← hexValue? c
  let d ← hexValue? d
  return ((a * 16 + b) * 16 + c) * 16 + d

def isLeadingSurrogate (n : Nat) : Bool := 0xD800 ≤ n && n ≤ 0xDBFF

def isTrailingSurrogate (n : Nat) : Bool := 0xDC00 ≤ n && n ≤ 0xDFFF

/-- The character of a surrogate pair. -/
def pairChar (leading trailing : Nat) : Char :=
  Char.ofNat (0x10000 + (leading - 0xD800) * 0x400 + (trailing - 0xDC00))

/-- The character of a short escape. -/
def shortEscape? (c : Char) : Option Char :=
  if c = '"' ∨ c = '\\' ∨ c = '/' then some c
  else if c = 'b' then some '\x08'
  else if c = 'f' then some '\x0c'
  else if c = 'n' then some '\n'
  else if c = 'r' then some '\r'
  else if c = 't' then some '\t'
  else none

/-- What is wrong with a numeric escape of fewer than four characters: the text may end inside. -/
def shortHexError (rest : List Char) : ReadError :=
  if Text.byteLength rest < 4 then .truncated else .malformed

/-- Reads a string up to its closing quote. `done` holds the characters read, last first; `leading`
is a leading surrogate that wants its partner in the very next escape. -/
def readStringFrom (done : List Char) (leading : Option Nat) : Reader String
  | [] => .error .truncated
  | '\\' :: 'u' :: a :: b :: c :: d :: rest =>
      match hexUnit? a b c d, leading with
      | none, _ => .error .malformed
      | some n, none =>
          if isTrailingSurrogate n then .error .malformed
          else if isLeadingSurrogate n then readStringFrom done (some n) rest
          else readStringFrom (Char.ofNat n :: done) none rest
      | some n, some n₁ =>
          if isTrailingSurrogate n then readStringFrom (pairChar n₁ n :: done) none rest
          else .error .malformed
  | '\\' :: 'u' :: rest => .error (shortHexError rest)
  | ['\\'] => .error .truncated
  | c :: rest =>
      if leading.isSome then .error .malformed
      else if c = '"' then .ok (String.ofList done.reverse, rest)
      else if c = '\\' then
        match rest with
        | [] => .error .truncated
        | e :: rest =>
            match shortEscape? e with
            | none => .error .malformed
            | some plain => readStringFrom (plain :: done) none rest
      else if c.toNat < 0x20 then .error .malformed
      else readStringFrom (c :: done) none rest

/-- Reads a string after its opening quote. -/
def readString : Reader String := readStringFrom [] none

/-- Skips a string after its opening quote; surrogates need no partner. -/
def skipString : List Char → Except ReadError (List Char)
  | [] => .error .truncated
  | '"' :: rest => .ok rest
  | '\\' :: 'u' :: a :: b :: c :: d :: rest =>
      if (hexUnit? a b c d).isSome then skipString rest else .error .malformed
  | '\\' :: 'u' :: rest => .error (shortHexError rest)
  | '\\' :: c :: rest => if (shortEscape? c).isSome then skipString rest else .error .malformed
  | c :: rest =>
      if c = '\\' then .error .truncated
      else if c.toNat < 0x20 then .error .malformed
      else skipString rest

/-! Numbers. -/

def digitList (cs : List Char) : List Nat := cs.map Text.digitValue

/-- What is wrong where a digit is wanted. -/
def digitError : List Char → ReadError
  | [] => .truncated
  | _ => .malformed

/-- Reads the digits after the point, if there is one; a point wants a digit. -/
def readFraction : Reader (Option (List Nat))
  | '.' :: rest =>
      let digits := rest.takeWhile Char.isDigit
      let more := rest.dropWhile Char.isDigit
      if digits.isEmpty then .error (digitError more) else .ok (some (digitList digits), more)
  | rest => .ok (none, rest)

/-- Reads the digits of an exponent. -/
def readPower (negative : Bool) : Reader (Option Int) := fun rest =>
  let digits := rest.takeWhile Char.isDigit
  let more := rest.dropWhile Char.isDigit
  if digits.isEmpty then .error (digitError more)
  else
    let size : Int := Text.digitsValue digits
    .ok (some (if negative then -size else size), more)

/-- Reads the exponent, if there is one; its sign is optional. -/
def readExponent : Reader (Option Int)
  | mark :: rest =>
      if mark = 'e' ∨ mark = 'E' then
        match rest with
        | '+' :: more => readPower false more
        | '-' :: more => readPower true more
        | more => readPower false more
      else .ok (none, mark :: rest)
  | [] => .ok (none, [])

/-- Reads the text of a number after its sign. A leading zero stands alone before the point. -/
def readNumeral (negative : Bool) : Reader Numeral := fun cs => do
  let digits := cs.takeWhile Char.isDigit
  let rest := cs.dropWhile Char.isDigit
  match digits with
  | [] => throw (digitError rest)
  | first :: others =>
      if first = '0' ∧ others ≠ [] then throw .malformed
      let (fraction, rest) ← readFraction rest
      let (exponent, rest) ← readExponent rest
      return (⟨negative, digitList digits, fraction, exponent⟩, rest)

/-- Reads a number after its sign; it has to be in range. -/
def readNumber (negative : Bool) : Reader Json := fun cs => do
  let (numeral, rest) ← readNumeral negative cs
  match numeral.value? with
  | some value => return (value, rest)
  | none => throw .malformed

/-- Skips a number after its sign. -/
def skipNumber (cs : List Char) : Except ReadError (List Char) :=
  match readNumeral false cs with
  | .ok (_, rest) => .ok rest
  | .error _ => .error .malformed

/-- Reads a value that is neither an array nor an object. -/
def readScalar : Reader Json
  | [] => .error .truncated
  | 'n' :: rest => do return (.null, ← readWord ['u', 'l', 'l'] rest)
  | 't' :: rest => do return (.bool true, ← readWord ['r', 'u', 'e'] rest)
  | 'f' :: rest => do return (.bool false, ← readWord ['a', 'l', 's', 'e'] rest)
  | '"' :: rest => do
      let (value, rest) ← readString rest
      return (.string value, rest)
  | '-' :: rest => readNumber true rest
  | c :: rest => if c.isDigit then readNumber false (c :: rest) else .error .malformed

/-- What is wrong with a text that does not start with the value wanted: it starts with another
value, unless a scalar there goes wrong by itself. -/
def mismatch : List Char → ReadError
  | '[' :: _ => .shape
  | '\x7b' :: _ => .shape
  | cs =>
      match readScalar cs with
      | .ok _ => .shape
      | .error e => e

end TypeBridge.Json
