/-!
# Base 58

A byte string as a number in base 58 over an alphabet without the characters
that look alike. Every leading zero byte is written as one `1`.
-/

namespace WireSchema.Bytes

set_option autoImplicit false

def base58Alphabet : List Char :=
  "123456789ABCDEFGHJKLMNPQRSTUVWXYZabcdefghijkmnopqrstuvwxyz".toList

/-- Digits of a number, least significant first, none for zero. `fuel` bounds their count. -/
def digitsIn (base : Nat) : Nat → Nat → List Nat
  | 0, _ => []
  | fuel + 1, n => if n = 0 then [] else n % base :: digitsIn base fuel (n / base)

def base58 (bytes : List UInt8) : String :=
  let zeros := (bytes.takeWhile (· == 0)).length
  let number := bytes.foldl (fun n b => 256 * n + b.toNat) 0
  let digits := (digitsIn 58 (2 * bytes.length) number).reverse
  String.ofList (List.replicate zeros '1' ++ digits.map fun d => base58Alphabet.getD d '1')

/-- The bytes of a base 58 text, or nothing if a character is outside the alphabet. -/
def unbase58? (text : List Char) : Option (List UInt8) := do
  let digits ← text.mapM fun c => base58Alphabet.findIdx? (· == c)
  let zeros := (digits.takeWhile (· == 0)).length
  let number := digits.foldl (fun n d => 58 * n + d) 0
  let bytes := (digitsIn 256 text.length number).reverse
  return List.replicate zeros 0 ++ bytes.map UInt8.ofNat

/-- A key is written in base 58 and has exactly 32 bytes. No text of more than 44 characters is one. -/
def key? (text : String) : Option (List UInt8) := do
  if text.utf8ByteSize > 44 then none
  else
    let bytes ← unbase58? text.toList
    if bytes.length = 32 then some bytes else none

end WireSchema.Bytes
