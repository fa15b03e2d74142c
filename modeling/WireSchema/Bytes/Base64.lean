/-!
# Base 64

Three bytes as four characters, with `=` filling the last group. Reading wants
every unused bit of the last character to be zero, but not that the last group
is filled: of the `=` at its end some or all may be missing.
-/

namespace WireSchema.Bytes

set_option autoImplicit false

def base64Alphabet : List Char :=
  "ABCDEFGHIJKLMNOPQRSTUVWXYZabcdefghijklmnopqrstuvwxyz0123456789+/".toList

def base64Digit (n : Nat) : Char :=
  base64Alphabet.getD n 'A'

def base64Chars : List UInt8 → List Char
  | [] => []
  | [a] =>
    let n := a.toNat * 16
    [base64Digit (n / 64), base64Digit (n % 64), '=', '=']
  | [a, b] =>
    let n := (a.toNat * 256 + b.toNat) * 4
    [base64Digit (n / 4096), base64Digit (n / 64 % 64), base64Digit (n % 64), '=']
  | a :: b :: c :: rest =>
    let n := a.toNat * 65536 + b.toNat * 256 + c.toNat
    base64Digit (n / 262144) :: base64Digit (n / 4096 % 64) :: base64Digit (n / 64 % 64)
      :: base64Digit (n % 64) :: base64Chars rest

def base64 (bytes : List UInt8) : String :=
  String.ofList (base64Chars bytes)

/-- Why a text is not in base 64; offsets count its bytes. -/
inductive Base64Error where
  | invalidByte (offset : Nat) (byte : UInt8)
  | invalidLength
  | invalidLastSymbol (offset : Nat) (byte : UInt8)
deriving DecidableEq, Repr

def Base64Error.message : Base64Error → String
  | .invalidByte offset byte => s!"Invalid byte {byte}, offset {offset}."
  | .invalidLength => "Encoded text cannot have a 6-bit remainder."
  | .invalidLastSymbol offset byte => s!"Invalid last symbol {byte}, offset {offset}."

/-- The six bits that a byte of text stands for. -/
def base64Value? (byte : UInt8) : Option Nat :=
  base64Alphabet.findIdx? (·.toNat == byte.toNat)

def padding : UInt8 := 61

/-- The values at the front of a text, and what follows them. -/
def base64Values : List UInt8 → List Nat × List UInt8
  | [] => ([], [])
  | b :: rest =>
    match base64Value? b with
    | some v => let (values, after) := base64Values rest; (v :: values, after)
    | none => ([], b :: rest)

/-- The bytes of groups of four values; a last group may have two or three. -/
def ofBase64Values : List Nat → List UInt8
  | a :: b :: c :: d :: rest =>
    let n := ((a * 64 + b) * 64 + c) * 64 + d
    UInt8.ofNat (n / 65536) :: UInt8.ofNat (n / 256 % 256) :: UInt8.ofNat (n % 256)
      :: ofBase64Values rest
  | [a, b, c] =>
    let n := (a * 64 + b) * 64 + c
    [UInt8.ofNat (n / 1024), UInt8.ofNat (n / 4 % 256)]
  | [a, b] => [UInt8.ofNat ((a * 64 + b) / 16)]
  | _ => []

/-- The bits of the last value that are part of no byte, when there are `count` values. -/
def unusedBits (count last : Nat) : Nat :=
  match count % 4 with
  | 2 => last % 16
  | 3 => last % 4
  | _ => 0

/-- What may follow the values: nothing, or padding within a group that has two values at least. -/
def isPadding (count : Nat) (rest : List UInt8) : Bool :=
  rest.isEmpty || (2 ≤ count % 4 && count % 4 + rest.length ≤ 4 && rest.all (· == padding))

/-- The bytes of a text in base 64. -/
def unbase64 (text : List UInt8) : Except Base64Error (List UInt8) :=
  let (values, rest) := base64Values text
  let count := values.length
  if text.length % 4 = 1 then
    match text.getLast? with
    | some b =>
      if b ≠ padding ∧ base64Value? b = none then .error (.invalidByte (text.length - 1) b)
      else .error .invalidLength
    | none => .error .invalidLength
  else if !isPadding count rest then
    .error (.invalidByte count (rest.headD padding))
  else if unusedBits count (values.getLastD 0) ≠ 0 then
    .error (.invalidLastSymbol (count - 1) (text.getD (count - 1) padding))
  else .ok (ofBase64Values values)

end WireSchema.Bytes
