import WireSchema.Decimal.Binary

/-!
# Shortest decimals

The decimal with the fewest digits that rounds to a given double, and of those
the nearest. The search tries grids of ever finer powers of ten, and on each
the two neighbours of the exact value. `NumberStyle` below lays the digits out.
That seventeen digits always suffice is not proved here; if they did not, the
exact value would be written.
-/

namespace WireSchema.Decimal

set_option autoImplicit false

/-- `digits * 10 ^ exponent`. -/
structure Numeral where
  digits : Nat
  exponent : Int
deriving DecidableEq, Repr

/-- Compare `a * 10 ^ i` with `n * 2 ^ j`. -/
def compareScaled (a : Nat) (i : Int) (n : Nat) (j : Int) : Ordering :=
  compare (a * tenTo i.toNat * twoTo (-j).toNat) (n * twoTo j.toNat * tenTo (-i).toNat)

/-- The numeral lies among the numbers that round to the finite pattern `bits`, its sign left aside.
The interval reaches halfway to each neighbour; its ends belong to it when the mantissa is even. -/
def readsBack (bits : Nat) (d : Numeral) : Bool :=
  let (m, e) := FloatFormat.double.parts bits
  let narrow := m = twoTo 52 ∧ twoTo 53 ≤ bits
  let low := if narrow then 4 * m - 1 else 4 * m - 2
  let ends := m % 2 == 0
  let fromLow := compareScaled d.digits d.exponent low (e - 2)
  let fromHigh := compareScaled d.digits d.exponent (4 * m + 2) (e - 2)
  (fromLow == .gt || (ends && fromLow == .eq)) && (fromHigh == .lt || (ends && fromHigh == .eq))

/-- The exponent of the leading decimal digit of `m * 2 ^ e`, plus one. -/
def decimalSize (m : Nat) (e : Int) : Int :=
  let guess : Int := ((m.log2 : Int) + e) * 30103 / 100000
  if compareScaled 1 guess m e == .gt then guess
  else if compareScaled 1 (guess + 1) m e == .gt then guess + 1
  else guess + 2

/-- The value divided by `10 ^ exponent`, rounded down. -/
def floorOnGrid (m : Nat) (e : Int) (exponent : Int) : Nat :=
  (m * twoTo e.toNat * tenTo (-exponent).toNat) / (twoTo (-e).toNat * tenTo exponent.toNat)

/-- The neighbour on a grid that reads back, the nearer one if both do, the even one on a tie. -/
def onGrid? (bits : Nat) (exponent : Int) : Option Numeral :=
  let (m, e) := FloatFormat.double.parts bits
  let below : Numeral := ⟨floorOnGrid m e exponent, exponent⟩
  let above : Numeral := ⟨below.digits + 1, exponent⟩
  match readsBack bits below, readsBack bits above with
  | false, false => none
  | true, false => some below
  | false, true => some above
  | true, true =>
    match compareScaled (below.digits + above.digits) exponent (2 * m) e with
    | .gt => some below
    | .lt => some above
    | .eq => if below.digits % 2 = 0 then some below else some above

/-- Trailing zeros move into the exponent, `fuel` of them at most. -/
def stripZeros : Nat → Numeral → Numeral
  | 0, d => d
  | fuel + 1, d =>
    if d.digits ≠ 0 ∧ d.digits % 10 = 0 then stripZeros fuel ⟨d.digits / 10, d.exponent + 1⟩ else d

/-- The shortest numeral of a finite pattern that is not zero. -/
def shortest (bits : Nat) : Numeral :=
  let (m, e) := FloatFormat.double.parts bits
  let size := decimalSize m e
  let found := (List.range 17).findSome? fun n => onGrid? bits (size - (n + 1 : Nat))
  stripZeros 17 (found.getD ⟨m * twoTo e.toNat * Nat.pow 5 (-e).toNat, min e 0⟩)

/-- Exponents of the leading digit that are written positionally: from `plainFrom` up to and
including `plainTo`. -/
structure NumberStyle where
  plainFrom : Int
  plainTo : Int

/-- The digits laid out, with a point and at least one digit after it when written positionally. -/
def NumberStyle.layout (style : NumberStyle) (d : Numeral) : List Char :=
  let digits := Nat.toDigits 10 d.digits
  let count := digits.length
  let leading : Int := d.exponent + count - 1
  if style.plainFrom ≤ leading ∧ leading ≤ style.plainTo then
    if 0 ≤ d.exponent then
      digits ++ List.replicate d.exponent.toNat '0' ++ ['.', '0']
    else if 0 ≤ leading then
      digits.take (leading.toNat + 1) ++ '.' :: digits.drop (leading.toNat + 1)
    else
      '0' :: '.' :: List.replicate (-leading - 1).toNat '0' ++ digits
  else
    let mantissa := match digits with
      | [] => []
      | [d] => [d]
      | d :: rest => d :: '.' :: rest
    mantissa ++ 'e' :: (if 0 ≤ leading then '+' else '-') :: Nat.toDigits 10 leading.natAbs

/-- A finite double, sign included, in the given notation. -/
def NumberStyle.render (style : NumberStyle) (bits : Nat) : List Char :=
  let signBit := FloatFormat.double.signBit
  let sign := if bits < signBit then [] else ['-']
  let magnitude := bits % signBit
  if magnitude = 0 then sign ++ ['0', '.', '0']
  else sign ++ style.layout (shortest magnitude)

end WireSchema.Decimal
