import WireSchema.Json.Basic
import WireSchema.Decimal.Binary

/-!
# Numbers of a JSON text

The parts of a number are read first and given a value afterwards. A number
without point and exponent that fits 64 bits is an integer. Any other becomes a
double in two rounded steps: as many leading digits as fit 64 bits are taken as
one natural number, and that is multiplied or divided by a power of ten. The
result is close to the written number but need not be the double nearest to it.
-/

namespace WireSchema.Json

set_option autoImplicit false

open Decimal

/-- The text ended too early, or it breaks a rule. -/
inductive Fault where
  | truncated
  | malformed
deriving DecidableEq, Repr

/-- The written parts of a number. -/
structure NumberText where
  negative : Bool
  whole : List Nat
  fraction : Option (List Nat)
  /-- Whether the exponent is negative, and its digits. -/
  exponent : Option (Bool × List Nat)
deriving Repr

def digit? (c : Char) : Option Nat :=
  if '0' ≤ c ∧ c ≤ '9' then some (c.toNat - 48) else none

/-- The digits at the front of a text, and the rest. -/
def digitsOf : List Char → List Nat × List Char
  | [] => ([], [])
  | c :: rest =>
    match digit? c with
    | some d => let (digits, after) := digitsOf rest; (d :: digits, after)
    | none => ([], c :: rest)

/-- At least one digit. -/
def digitsOf1 (text : List Char) : Except Fault (List Nat × List Char) :=
  match text, digitsOf text with
  | [], _ => .error .truncated
  | _ :: _, ([], _) => .error .malformed
  | _ :: _, found => .ok found

/-- The digits before the point: a leading zero stands alone. -/
def wholeOf (text : List Char) : Except Fault (List Nat × List Char) := do
  let (digits, rest) ← digitsOf1 text
  match digits with
  | 0 :: _ :: _ => .error .malformed
  | _ => return (digits, rest)

def fractionOf : List Char → Except Fault (Option (List Nat) × List Char)
  | '.' :: rest => do
    let (digits, rest) ← digitsOf1 rest
    return (some digits, rest)
  | rest => .ok (none, rest)

def exponentOf (text : List Char) : Except Fault (Option (Bool × List Nat) × List Char) :=
  let signed (rest : List Char) : Except Fault (Option (Bool × List Nat) × List Char) := do
    let (negative, rest) := match rest with
      | '+' :: rest => (false, rest)
      | '-' :: rest => (true, rest)
      | rest => (false, rest)
    let (digits, rest) ← digitsOf1 rest
    return (some (negative, digits), rest)
  match text with
  | 'e' :: rest => signed rest
  | 'E' :: rest => signed rest
  | rest => .ok (none, rest)

/-- The parts of the number at the front of a text, its sign already read. -/
def numberTextOf (negative : Bool) (text : List Char) : Except Fault (NumberText × List Char) := do
  let (whole, rest) ← wholeOf text
  let (fraction, rest) ← fractionOf rest
  let (exponent, rest) ← exponentOf rest
  return (⟨negative, whole, fraction, exponent⟩, rest)

/-- Append digits to a number as long as it stays below `2^64`; the digits that found no place remain. -/
def absorb (n : Nat) : List Nat → Nat × List Nat
  | [] => (n, [])
  | d :: rest => if 10 * n + d < twoTo 64 then absorb (10 * n + d) rest else (n, d :: rest)

/-- Divide a double by a power of ten, by at most `10^308` at a time. -/
def divideByPower (bits : Nat) (power : Nat) : Nat :=
  let f := FloatFormat.double
  if power ≤ 308 then f.divide bits (f.ofRatio (tenTo power) 1)
  else if bits = 0 then 0
  else divideByPower (f.divide bits (f.ofRatio (tenTo 308) 1)) (power - 308)
termination_by power

/-- The double for `n * 10 ^ exponent` in two rounded steps, if it is finite. -/
def scaled? (n : Nat) (exponent : Int) : Option Nat :=
  let f := FloatFormat.double
  let bits := f.ofRatio n 1
  if exponent < 0 then some (divideByPower bits exponent.natAbs)
  else if exponent ≤ 308 then
    let product := f.multiply bits (f.ofRatio (tenTo exponent.toNat) 1)
    if product = f.infinity then none else some product
  else if bits = 0 then some 0
  else none

/-- The value of the digits of an exponent. -/
def digitsValue (digits : List Nat) : Nat :=
  digits.foldl (fun n d => 10 * n + d) 0

/-- The magnitude of a number as a double. An exponent of `2^31` or more is out of range unless it makes
the number vanish. -/
def NumberText.magnitude? (t : NumberText) : Option Nat :=
  let (n, spilled) := absorb 0 t.whole
  let (n, unused) := absorb n (t.fraction.getD [])
  let absorbed := (t.fraction.getD []).length - unused.length
  let shift : Int := spilled.length - absorbed
  match t.exponent with
  | none => scaled? n shift
  | some (negative, digits) =>
    let e := digitsValue digits
    if twoTo 31 ≤ e then (if n ≠ 0 ∧ negative = false then none else some 0)
    else scaled? n (if negative then shift - e else shift + e)

def signed (negative : Bool) (bits : Nat) : Json :=
  .float (UInt64.ofNat (if negative then bits + FloatFormat.double.signBit else bits))

/-- The value of a number. Zero with a minus sign is a double, as is an integer below `-2^63`. -/
def NumberText.value (t : NumberText) : Except Fault Json :=
  let n := digitsValue t.whole
  if t.fraction.isNone ∧ t.exponent.isNone ∧ n < twoTo 64 then
    if t.negative = false then .ok (.int n)
    else if n = 0 ∨ twoTo 63 < n then .ok (signed true (FloatFormat.double.ofRatio n 1))
    else .ok (.int (-n))
  else
    match t.magnitude? with
    | some bits => .ok (signed t.negative bits)
    | none => .error .malformed

/-- The number at the front of a text, its sign already read. -/
def numberOf (negative : Bool) (text : List Char) : Except Fault (Json × List Char) := do
  let (t, rest) ← numberTextOf negative text
  return (← t.value, rest)

end WireSchema.Json
