import WireSchema.Bytes.LittleEndian

/-!
# Keys that are points of a curve

The curve is `-x^2 + y^2 = 1 + d * x^2 * y^2` over the numbers modulo
`2^255 - 19`. A key is the coordinate `y` of a point, with the sign of `x` in
the top bit. It lies on the curve when some `x` fits, which Euler's criterion
decides.
-/

namespace WireSchema.Bytes

set_option autoImplicit false

def curvePrime : Nat := Nat.pow 2 255 - 19

/-- The constant `d` of the curve. -/
def curveConstant : Nat :=
  37095705934669439343138083508754565189542113879843219016388785533085940283555

/-- `base ^ n` modulo the prime, by squaring; `bits` bounds the length of `n`. -/
def powerMod (base : Nat) : Nat → Nat → Nat
  | 0, _ => 1
  | bits + 1, n =>
    let root := powerMod base bits (n / 2)
    let square := root * root % curvePrime
    if n % 2 = 1 then square * base % curvePrime else square

/-- Whether a number is a square modulo the prime. -/
def isSquare (n : Nat) : Bool :=
  powerMod (n % curvePrime) 255 ((curvePrime - 1) / 2) ≤ 1

/-- Whether a key of 32 bytes is a point of the curve. -/
def isOnCurve (key : List UInt8) : Bool :=
  let y := leNat key % Nat.pow 2 255 % curvePrime
  let above := (y * y + curvePrime - 1) % curvePrime
  let below := (curveConstant * (y * y) + 1) % curvePrime
  isSquare (above * below)

end WireSchema.Bytes
