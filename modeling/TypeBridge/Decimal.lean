import TypeBridge.Double
import TypeBridge.Text.Basic

/-!
Decimal text of floating-point numbers. Writing takes the fewest digits that round back to the
number, and of those the ones nearest to it; reading rounds the exact decimal to the nearest number.
The selection of digits is apart from their layout: a layout only places the point.
-/

namespace TypeBridge

open Text (digitString zeros digitsValue)

/-- The decimal `digits · 10 ^ scale`. -/
structure Decimal where
  digits : Nat
  scale : Int
deriving DecidableEq

/-- Which of two neighbours on a decimal grid stands for a value halfway between them. -/
inductive Tie where
  | up
  | toEven
deriving DecidableEq, Repr

/-- Whether the lower neighbour wins halfway. -/
def Tie.keepsLower (tie : Tie) (lower : Nat) : Bool :=
  match tie with
  | .up => false
  | .toEven => lower % 2 == 0

namespace Double

/-- Decides on one decimal grid whether a neighbour of a value lies in the interval that rounds to
it. In units of a quarter of the binary spacing the value is `4 m`, and the interval reaches from
`low` to `high`; `unit` and `grid` are the two spacings over one denominator. Of two hits the nearer
wins, and halfway the tie decides. -/
def gridHit (tie : Tie) (m low high unit grid : Nat) (closed : Bool) : Option Nat :=
  let value := 4 * m * unit
  let below := value / grid
  let inside (d : Nat) : Bool :=
    if closed then low * unit ≤ d * grid && d * grid ≤ high * unit
    else low * unit < d * grid && d * grid < high * unit
  match inside below, inside (below + 1) with
  | true, true =>
      let past := value - below * grid
      let missing := (below + 1) * grid - value
      if past < missing ∨ (past = missing ∧ tie.keepsLower below) then some below
      else some (below + 1)
  | true, false => some below
  | false, true => some (below + 1)
  | false, false => none

/-- Tries the grids from `10 ^ scale` downwards. -/
def searchGrids (tie : Tie) (m low high : Nat) (q : Int) (closed : Bool) : Nat → Int → Decimal
  | 0, scale => ⟨0, scale⟩
  | steps + 1, scale =>
      let unit := if 2 ≤ q then twoTo (q - 2).toNat else 1
      let divisor := if 2 ≤ q then 1 else twoTo (2 - q).toNat
      let found :=
        if 0 ≤ scale then gridHit tie m low high unit (tenTo scale.toNat * divisor) closed
        else gridHit tie m low high (unit * tenTo (-scale).toNat) divisor closed
      match found with
      | some digits => ⟨digits, scale⟩
      | none => searchGrids tie m low high q closed steps (scale - 1)

/-- The shortest decimal that rounds to the magnitude of a finite number. The interval below a power
of two is half as wide, and its ends count when the significand is even. A number has at most
seventeen digits, and the first grid tried is at most two places above its leading one. -/
def shortest (tie : Tie) (x : Double) : Decimal :=
  let m := x.significand
  if m = 0 then ⟨0, 0⟩ else
    let q := x.exponent
    let low := if m = twoTo 52 ∧ -1074 < q then 4 * m - 1 else 4 * m - 2
    let start := ((m.log2 : Int) + q + 1) * 30103 / 100000 + 1
    searchGrids tie m low (4 * m + 2) q (m % 2 = 0) 21 start

end Double

namespace Decimal

/-- Writes a decimal without an exponent: zeros fill up to the point or follow it, and a whole
number has no point. -/
def positional (d : Decimal) : String :=
  let text := digitString d.digits
  if 0 ≤ d.scale then
    if d.digits = 0 then "0" else text ++ zeros d.scale.toNat
  else
    let places := (-d.scale).toNat
    if places < text.length then
      let whole := text.length - places
      String.ofList (text.toList.take whole) ++ "." ++ String.ofList (text.toList.drop whole)
    else "0." ++ zeros (places - text.length) ++ text

/-- The number nearest to a decimal. Decimals beyond every finite number become infinite and those
below half of the least positive one become zero, before any power is computed. -/
def toDouble (negative : Bool) (d : Decimal) : Double :=
  if d.digits = 0 then Double.zero negative
  else
    let leading := ((Nat.toDigits 10 d.digits).length : Int) + d.scale
    if 310 < leading then Double.infinity negative
    else if leading < -330 then Double.zero negative
    else if 0 ≤ d.scale then Double.ofQuotient negative (d.digits * tenTo d.scale.toNat) 1
    else Double.ofQuotient negative d.digits (tenTo (-d.scale).toNat)

end Decimal

namespace Double

/-- The text of a number: positional shortest digits, of which the greater ones win halfway, `-0` for
the negative zero, and a word for what is not finite. -/
def text (x : Double) : String :=
  if x.isNaN then "NaN"
  else
    let sign := if x.isNegative then "-" else ""
    if x.isFinite then sign ++ (x.shortest .up).positional else sign ++ "inf"

/-- Reads the exponent part of a decimal, if there is one; nothing may follow it. -/
def readExponent? : List Char → Option Int
  | [] => some 0
  | mark :: rest =>
      if mark != 'e' && mark != 'E' then none
      else
        let (negative, digits) : Bool × List Char := match rest with
          | '-' :: more => (true, more)
          | '+' :: more => (false, more)
          | more => (false, more)
        if digits.isEmpty || !digits.all Char.isDigit then none
        else
          let size : Int := digitsValue digits
          some (if negative then -size else size)

/-- Reads digits with an optional point and exponent; at least one digit is wanted. -/
def readDecimal? (cs : List Char) : Option Decimal :=
  let whole := cs.takeWhile Char.isDigit
  let rest := cs.dropWhile Char.isDigit
  let (fraction, tail) : List Char × List Char := match rest with
    | '.' :: more => (more.takeWhile Char.isDigit, more.dropWhile Char.isDigit)
    | other => ([], other)
  if whole.isEmpty && fraction.isEmpty then none
  else (readExponent? tail).map fun e => ⟨digitsValue (whole ++ fraction), e - fraction.length⟩

/-- Reads a number: an optional sign, then `inf`, `infinity` or `nan` in any case, or a decimal. -/
def ofText? (s : String) : Option Double :=
  let (negative, body) : Bool × List Char := match s.toList with
    | '-' :: rest => (true, rest)
    | '+' :: rest => (false, rest)
    | rest => (false, rest)
  let word := String.ofList (body.map Char.toLower)
  if word = "inf" ∨ word = "infinity" then some (infinity negative)
  else if word = "nan" then some (if negative then nan.negate else nan)
  else (readDecimal? body).map (Decimal.toDouble negative)

end Double

end TypeBridge
