/-!
# Integers from text

A sign and digits, nothing else and no blanks. A plus sign is always allowed, a
minus sign where negative numbers are. Numbers outside the given range are
refused.
-/

namespace WireSchema.Decimal

set_option autoImplicit false

def digitValue? (c : Char) : Option Nat :=
  if '0' ≤ c ∧ c ≤ '9' then some (c.toNat - 48) else none

/-- Continue a number by the digits of a text. -/
def appendDigits? (n : Nat) : List Char → Option Nat
  | [] => some n
  | c :: rest => do appendDigits? (10 * n + (← digitValue? c)) rest

/-- At least one digit and nothing else. -/
def digits? : List Char → Option Nat
  | [] => none
  | text => appendDigits? 0 text

/-- A number without a sign or with a plus sign, below `bound`. -/
def natural? (bound : Nat) (text : List Char) : Option Nat := do
  let n ← match text with
    | '+' :: rest => digits? rest
    | text => digits? text
  if n < bound then some n else none

/-- A number with any sign, at least `-bound` and below `bound`. -/
def integer? (bound : Nat) (text : List Char) : Option Int := do
  let n : Int ← match text with
    | '-' :: rest => (digits? rest).map fun n => -(n : Int)
    | '+' :: rest => (digits? rest).map Int.ofNat
    | text => (digits? text).map Int.ofNat
  if -(bound : Int) ≤ n ∧ n < bound then some n else none

end WireSchema.Decimal
