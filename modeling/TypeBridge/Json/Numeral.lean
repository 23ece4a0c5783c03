import TypeBridge.Json.Basic
import TypeBridge.Decimal

/-!
Number texts of JSON and what they stand for. An integer stays an integer as long as it fits in a
word; every other number is a floating-point number, computed from a significand of at most one
word and a power of ten, each rounded on its own, and their rounded product or quotient.
-/

namespace TypeBridge.Json

/-- A number as written: sign, digits before the point, digits after it and the exponent. -/
structure Numeral where
  negative : Bool
  whole : List Nat
  fraction : Option (List Nat)
  exponent : Option Int
deriving DecidableEq

namespace Numeral

/-- The largest significand. -/
def wordLimit : Nat := UInt64.size - 1

/-- Appends digits while the significand fits in a word, and counts those that do not: the first
digit that does not fit ends the significand. -/
def appendDigits (significand : Nat) : List Nat → Nat × Nat
  | [] => (significand, 0)
  | digit :: rest =>
      if significand * 10 + digit ≤ wordLimit then appendDigits (significand * 10 + digit) rest
      else (significand, (digit :: rest).length)

/-- Divides by a power of ten in steps of at most `308` places, until nothing is left. -/
def scaleDown (x : Double) (places : Nat) : Double :=
  if places ≤ 308 then x.divide (Double.ofTenTo places)
  else if x.isZero then x
  else scaleDown (x.divide (Double.ofTenTo 308)) (places - 308)
termination_by places

/-- Multiplies by a power of ten; a number too large for the format has no value. -/
def scale? (x : Double) (exponent : Int) : Option Double :=
  if exponent < 0 then some (scaleDown x (-exponent).toNat)
  else if x.isZero then some x
  else if 308 < exponent then none
  else
    let y := x.multiply (Double.ofTenTo exponent.toNat)
    if y.isInfinite then none else some y

/-- The value of a number text, or nothing when it is too large. A negative zero and an integer
below the least word of integers are floating-point numbers. -/
def value? (n : Numeral) : Option Json :=
  let (whole, dropped) := appendDigits 0 n.whole
  let sign (x : Double) : Double := if n.negative then x.negate else x
  match n.fraction, n.exponent, dropped with
  | none, none, 0 =>
      if !n.negative then some (.integer whole)
      else if whole = 0 ∨ twoTo 63 < whole then some (.float (Double.ofNat whole).negate)
      else some (.integer (-whole))
  | _, _, _ =>
      let fraction := n.fraction.getD []
      let (significand, ignored) := appendDigits whole fraction
      let kept := fraction.length - ignored
      let exponent := (dropped : Int) - kept + n.exponent.getD 0
      (scale? (Double.ofNat significand) exponent).map fun x => .float (sign x)

end Numeral

end TypeBridge.Json
