/-!
Binary floating-point numbers of 64 bits, by their bit patterns. A finite pattern stands for an
exact rational `m · 2 ^ q`; an exact rational is turned into a pattern by rounding to the nearest
one, a half going to the even neighbour. Every operation here is exact arithmetic on naturals
followed by one such rounding.
-/

namespace TypeBridge

/-- A power of the base that numbers have inside. -/
def twoTo (n : Nat) : Nat := Nat.pow 2 n

/-- A power of the base that numbers are written in. -/
def tenTo (n : Nat) : Nat := Nat.pow 10 n

/-- A 64-bit floating-point number: one sign bit, eleven exponent bits, fifty-two fraction bits. -/
structure Double where
  bits : UInt64
deriving DecidableEq, Inhabited

namespace Double

def isNegative (x : Double) : Bool := twoTo 63 ≤ x.bits.toNat

def exponentField (x : Double) : Nat := x.bits.toNat / twoTo 52 % 2048

def fractionField (x : Double) : Nat := x.bits.toNat % twoTo 52

def isNaN (x : Double) : Bool := x.exponentField == 2047 && x.fractionField != 0

def isFinite (x : Double) : Bool := x.exponentField != 2047

def isInfinite (x : Double) : Bool := x.exponentField == 2047 && x.fractionField == 0

def isZero (x : Double) : Bool := x.exponentField == 0 && x.fractionField == 0

/-- The integer `m` of the magnitude `m · 2 ^ q` of a finite number. -/
def significand (x : Double) : Nat :=
  if x.exponentField = 0 then x.fractionField else twoTo 52 + x.fractionField

/-- The exponent `q` of the magnitude `m · 2 ^ q` of a finite number. -/
def exponent (x : Double) : Int :=
  if x.exponentField = 0 then -1074 else (x.exponentField : Int) - 1075

/-- Numeric equality: the two zeros are equal, and a number that is no number equals nothing. -/
def same (x y : Double) : Bool :=
  !x.isNaN && !y.isNaN && (x.bits == y.bits || (x.isZero && y.isZero))

/-- Puts the sign in front of a magnitude's bit pattern. -/
def withSign (negative : Bool) (magnitude : Nat) : Double :=
  ⟨UInt64.ofNat (if negative then twoTo 63 + magnitude else magnitude)⟩

def infinity (negative : Bool) : Double := withSign negative (2047 * twoTo 52)

def zero (negative : Bool) : Double := withSign negative 0

/-- The quiet pattern that is no number. -/
def nan : Double := ⟨0x7ff8000000000000⟩

def negate (x : Double) : Double := ⟨x.bits ^^^ 0x8000000000000000⟩

/-- The integer nearest to a quotient; a half goes to the even neighbour. -/
def roundQuotient (numerator denominator : Nat) : Nat :=
  let floor := numerator / denominator
  let twice := 2 * (numerator % denominator)
  if twice < denominator then floor
  else if denominator < twice then floor + 1
  else if floor % 2 = 0 then floor else floor + 1

/-- A lower estimate of the binary logarithm of a positive quotient, at most one too small. -/
def quotientLog (numerator denominator : Nat) : Int :=
  (numerator.log2 : Int) - denominator.log2 - 1

/-- The pattern nearest to a quotient in magnitude; too large a quotient becomes infinite. The
spacing is chosen so that the rounded integer has fifty-three bits, unless the quotient is below
the range of normal numbers. -/
def ofQuotient (negative : Bool) (numerator denominator : Nat) : Double :=
  if numerator = 0 then zero negative else
    let estimate := quotientLog numerator denominator
    -- one doubling decides whether the estimate was one too small
    let exact : Bool :=
      if 0 ≤ estimate + 1 then denominator * twoTo (estimate + 1).toNat ≤ numerator
      else denominator ≤ numerator * twoTo (-(estimate + 1)).toNat
    let leading := if exact then estimate + 1 else estimate
    let q := max (leading - 52) (-1074)
    let m :=
      if 0 ≤ q then roundQuotient numerator (denominator * twoTo q.toNat)
      else roundQuotient (numerator * twoTo (-q).toNat) denominator
    let magnitude := (q + 1074).toNat * twoTo 52 + m
    withSign negative (min magnitude (2047 * twoTo 52))

def ofNat (n : Nat) : Double := ofQuotient false n 1

/-- The numerator of the magnitude of a finite number. -/
def numerator (x : Double) : Nat :=
  if 0 ≤ x.exponent then x.significand * twoTo x.exponent.toNat else x.significand

/-- The denominator of the magnitude of a finite number. -/
def denominator (x : Double) : Nat :=
  if 0 ≤ x.exponent then 1 else twoTo (-x.exponent).toNat

/-- The rounded product of two finite numbers. -/
def multiply (x y : Double) : Double :=
  ofQuotient (x.isNegative != y.isNegative) (x.numerator * y.numerator)
    (x.denominator * y.denominator)

/-- The rounded quotient of a finite number by a finite number that is not zero. -/
def divide (x y : Double) : Double :=
  ofQuotient (x.isNegative != y.isNegative) (x.numerator * y.denominator)
    (x.denominator * y.numerator)

/-- The number nearest to a power of ten. -/
def ofTenTo (k : Nat) : Double := ofNat (tenTo k)

end Double

end TypeBridge
