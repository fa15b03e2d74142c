import WireSchema.Decimal.Power

/-!
# Binary floating point numbers as bit patterns

A finite number of a format is `mantissa * 2 ^ exponent`, and a positive ratio
is rounded to the nearest such number, a tie to the even mantissa. All of it is
arithmetic of natural numbers; the sign is kept apart. No law of real numbers
is claimed for the rounded operations.
-/

namespace WireSchema.Decimal

set_option autoImplicit false

/-- Widths of the stored fraction and of the exponent. -/
structure FloatFormat where
  fractionBits : Nat
  exponentBits : Nat
deriving DecidableEq, Repr

namespace FloatFormat

def double : FloatFormat := ⟨52, 11⟩
def single : FloatFormat := ⟨23, 8⟩

/-- The exponent of the last bit of the smallest numbers. -/
def leastExponent (f : FloatFormat) : Int :=
  2 - twoTo (f.exponentBits - 1) - f.fractionBits

/-- The bit pattern of infinity; every finite pattern without its sign is below it. -/
def infinity (f : FloatFormat) : Nat :=
  (twoTo f.exponentBits - 1) * twoTo f.fractionBits

/-- The pattern of a number that is no number: infinity with the top bit of the fraction set. -/
def notANumber (f : FloatFormat) : Nat :=
  f.infinity + twoTo (f.fractionBits - 1)

/-- The position of the sign bit. -/
def signBit (f : FloatFormat) : Nat :=
  twoTo (f.fractionBits + f.exponentBits)

/-- Mantissa and exponent of a finite pattern without its sign. -/
def parts (f : FloatFormat) (bits : Nat) : Nat × Int :=
  let field := bits / twoTo f.fractionBits
  let fraction := bits % twoTo f.fractionBits
  if field = 0 then (fraction, f.leastExponent)
  else (twoTo f.fractionBits + fraction, f.leastExponent + (field - 1 : Nat))

/-- The quotient rounded to the nearest natural number, a tie to the even one. -/
def divideToEven (num den : Nat) : Nat :=
  let q := num / den
  let twice := 2 * (num % den)
  if twice < den then q
  else if den < twice then q + 1
  else if q % 2 = 0 then q else q + 1

/-- The quotient of `num * 2 ^ (-e)` by `den`, rounded. -/
def divideScaled (num den : Nat) (e : Int) : Nat :=
  divideToEven (num * twoTo (-e).toNat) (den * twoTo e.toNat)

/-- The pattern of the number nearest to `num / den`, which is infinity when that is too large. -/
def ofRatio (f : FloatFormat) (num den : Nat) : Nat :=
  if num = 0 then 0
  else
    let guess : Int := (num.log2 : Int) - den.log2 - f.fractionBits
    let small := num * twoTo (-guess).toNat < den * twoTo guess.toNat * twoTo f.fractionBits
    let e := max (if small then guess - 1 else guess) f.leastExponent
    min ((e - f.leastExponent).toNat * twoTo f.fractionBits + divideScaled num den e) f.infinity

/-- The pattern nearest to `mantissa * 2 ^ exponent`. -/
def ofParts (f : FloatFormat) (mantissa : Nat) (exponent : Int) : Nat :=
  f.ofRatio (mantissa * twoTo exponent.toNat) (twoTo (-exponent).toNat)

/-- The rounded product of two finite patterns. -/
def multiply (f : FloatFormat) (a b : Nat) : Nat :=
  let (m, i) := f.parts a
  let (n, j) := f.parts b
  f.ofParts (m * n) (i + j)

/-- The rounded quotient of a finite pattern by a finite pattern that is not zero. -/
def divide (f : FloatFormat) (a b : Nat) : Nat :=
  let (m, i) := f.parts a
  let (n, j) := f.parts b
  let e := i - j
  f.ofRatio (m * twoTo e.toNat) (n * twoTo (-e).toNat)

/-- The pattern nearest to `digits * 10 ^ exponent`. Exponents far outside the range of the format are
settled without computing the power. -/
def ofDecimal (f : FloatFormat) (digits : Nat) (exponent : Int) : Nat :=
  let size : Int := exponent + (Nat.toDigits 10 digits).length
  if digits = 0 ∨ size < -400 then 0
  else if 400 < size then f.infinity
  else f.ofRatio (digits * tenTo exponent.toNat) (tenTo (-exponent).toNat)

end FloatFormat

/-- A single precision pattern, sign included, as the double precision pattern of the same number. -/
def widen (bits : Nat) : Nat :=
  let s := FloatFormat.single
  let d := FloatFormat.double
  let sign := if bits < s.signBit then 0 else d.signBit
  let magnitude := bits % s.signBit
  if s.infinity < magnitude then sign + d.notANumber
  else if magnitude = s.infinity then sign + d.infinity
  else
    let (m, e) := s.parts magnitude
    sign + d.ofParts m e

/-- Whether a double precision pattern, sign included, is a number and not infinite. -/
def isFinite (bits : Nat) : Bool :=
  bits % FloatFormat.double.signBit < FloatFormat.double.infinity

example : FloatFormat.double.ofRatio 1 10 = 0x3FB999999999999A := by decide +kernel
example : FloatFormat.double.ofDecimal 5 (-324) = 1 := by decide +kernel
example : FloatFormat.single.ofRatio 1 10 = 0x3DCCCCCD := by decide +kernel
example : widen 0x3DCCCCCD = 0x3FB99999A0000000 := by decide +kernel

end WireSchema.Decimal
