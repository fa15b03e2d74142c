import WireSchema.Decimal.Binary
import WireSchema.Decimal.Integer

/-!
# Floating point literals

Digits with an optional point, sign and exponent, rounded to the nearest number
of the format; `inf`, `infinity` and `nan` in any case. A point needs a digit on
one of its sides. What is too large becomes infinite.
-/

namespace WireSchema.Decimal

set_option autoImplicit false

/-- The digits at the front of a text, and the rest. -/
def leadingDigits : List Char → List Nat × List Char
  | [] => ([], [])
  | c :: rest =>
    match digitValue? c with
    | some d => let (digits, after) := leadingDigits rest; (d :: digits, after)
    | none => ([], c :: rest)

/-- The exponent that is the whole rest of a literal; no text stands for zero. -/
def exponent? : List Char → Option Int
  | [] => some 0
  | e :: rest =>
    if e = 'e' ∨ e = 'E' then
      match rest with
      | '-' :: rest => (digits? rest).map fun n => -(n : Int)
      | '+' :: rest => (digits? rest).map Int.ofNat
      | rest => (digits? rest).map Int.ofNat
    else none

/-- The bit pattern of a literal without a sign. -/
def FloatFormat.magnitude? (f : FloatFormat) (text : List Char) : Option Nat :=
  let lower := String.ofList (text.map Char.toLower)
  if lower = "inf" ∨ lower = "infinity" then some f.infinity
  else if lower = "nan" then some f.notANumber
  else do
    let (whole, rest) := leadingDigits text
    let (fraction, rest) := match rest with
      | '.' :: rest => leadingDigits rest
      | rest => ([], rest)
    if whole = [] ∧ fraction = [] then none
    else
      let e ← exponent? rest
      let digits := (whole ++ fraction).foldl (fun n d => 10 * n + d) 0
      return f.ofDecimal digits (e - fraction.length)

/-- The bit pattern of a literal, its sign included. -/
def FloatFormat.literal? (f : FloatFormat) : List Char → Option Nat
  | '-' :: rest => (f.magnitude? rest).map (f.signBit + ·)
  | '+' :: rest => f.magnitude? rest
  | text => f.magnitude? text

end WireSchema.Decimal
