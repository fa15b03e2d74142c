import WireSchema.Decimal.Literal

/-!
# Numbers and dates of a settings file

A value that is no text, list or table is one token without blanks; only a date
and a time may also be parted by a blank. The rules below tell which tokens are
values; which number or date they are does not matter.
-/

namespace WireSchema.Toml

set_option autoImplicit false

open Decimal

def isDigit (c : Char) : Bool :=
  '0' ≤ c && c ≤ '9'

def isHexDigit (c : Char) : Bool :=
  isDigit c || ('a' ≤ c && c ≤ 'f') || ('A' ≤ c && c ≤ 'F')

/-- Digits of some sort, which single underscores may part. -/
def isGrouped (digit : Char → Bool) : List Char → Bool
  | [] => false
  | [c] => digit c
  | c :: '_' :: rest => digit c && isGrouped digit rest
  | c :: rest => digit c && isGrouped digit rest

def dropSign : List Char → List Char
  | '+' :: rest => rest
  | '-' :: rest => rest
  | text => text

/-- Decimal digits without a superfluous zero in front. -/
def isWhole (text : List Char) : Bool :=
  isGrouped isDigit text && (text.head? != some '0' || text.length == 1)

/-- The value of digits, underscores left out. -/
def valueIn (base : Nat) (text : List Char) : Nat :=
  (text.filter (· ≠ '_')).foldl (fun n c =>
    base * n + (if isDigit c then c.toNat - 48 else c.toLower.toNat - 87)) 0

def isIntegerToken (token : List Char) : Bool :=
  match token with
  | '0' :: 'x' :: rest => isGrouped isHexDigit rest && valueIn 16 rest < twoTo 63
  | '0' :: 'o' :: rest => isGrouped (fun c => '0' ≤ c && c ≤ '7') rest && valueIn 8 rest < twoTo 63
  | '0' :: 'b' :: rest => isGrouped (fun c => c = '0' || c = '1') rest && valueIn 2 rest < twoTo 63
  | '-' :: rest => isWhole rest && valueIn 10 rest ≤ twoTo 63
  | token => isWhole (dropSign token) && valueIn 10 (dropSign token) < twoTo 63

def isExponent : List Char → Bool
  | [] => true
  | e :: rest => (e = 'e' || e = 'E') && isGrouped isDigit (dropSign rest)

/-- A floating point number; a positive one must not be too large. -/
def isFloatToken (token : List Char) : Bool :=
  let unsigned := dropSign token
  if unsigned = "inf".toList || unsigned = "nan".toList then true
  else
    let stops (c : Char) : Bool := c = '.' || c = 'e' || c = 'E'
    let whole := unsigned.takeWhile (!stops ·)
    let shape := match unsigned.dropWhile (!stops ·) with
      | [] => false
      | '.' :: rest =>
        isGrouped isDigit (rest.takeWhile (!stops ·)) && isExponent (rest.dropWhile (!stops ·))
      | rest => isExponent rest
    let value := FloatFormat.double.literal? (token.filter (· ≠ '_'))
    isWhole whole && shape && value.isSome && value != some FloatFormat.double.infinity

/-- The number of exactly `count` digits at the front of a text, and the rest. -/
def digitsAt (count : Nat) (text : List Char) : Option (Nat × List Char) :=
  let front := text.take count
  if front.length = count && front.all isDigit then some (valueIn 10 front, text.drop count) else none

def expectChar (c : Char) : List Char → Option (List Char)
  | d :: rest => if d = c then some rest else none
  | [] => none

def daysIn (year month : Nat) : Nat :=
  match month with
  | 2 => if year % 4 = 0 ∧ (year % 100 ≠ 0 ∨ year % 400 = 0) then 29 else 28
  | 4 | 6 | 9 | 11 => 30
  | _ => 31

/-- A date at the front of a text, and the rest. -/
def dateAt (text : List Char) : Option (List Char) := do
  let (year, rest) ← digitsAt 4 text
  let (month, rest) ← digitsAt 2 (← expectChar '-' rest)
  let (day, rest) ← digitsAt 2 (← expectChar '-' rest)
  if 1 ≤ month ∧ month ≤ 12 ∧ 1 ≤ day ∧ day ≤ daysIn year month then some rest else none

/-- The hours and minutes at the front of a text, and the rest. -/
def clockAt (text : List Char) : Option (List Char) := do
  let (hour, rest) ← digitsAt 2 text
  let (minute, rest) ← digitsAt 2 (← expectChar ':' rest)
  if hour ≤ 23 ∧ minute ≤ 59 then some rest else none

/-- A time with seconds at the front of a text, and the rest. -/
def timeAt (text : List Char) : Option (List Char) := do
  let (second, rest) ← digitsAt 2 (← expectChar ':' (← clockAt text))
  if 60 < second then none
  else
    match rest with
    | '.' :: rest =>
      if (rest.head?.map isDigit).getD false then some (rest.dropWhile isDigit) else none
    | rest => some rest

/-- Nothing, or the difference of a local time from the universal one. -/
def isOffset : List Char → Bool
  | [] => true
  | ['Z'] => true
  | ['z'] => true
  | '+' :: rest => clockAt rest == some []
  | '-' :: rest => clockAt rest == some []
  | _ => false

/-- A time, and perhaps an offset after it. -/
def isZonedTime (token : List Char) : Bool :=
  match timeAt token with
  | some rest => isOffset rest
  | none => false

def isDate (token : List Char) : Bool :=
  dateAt token == some []

def isDateToken (token : List Char) : Bool :=
  match dateAt token with
  | some [] => true
  | some ('T' :: rest) => isZonedTime rest
  | some ('t' :: rest) => isZonedTime rest
  | some _ => false
  | none => timeAt token == some []

/-- What tokens are made of. -/
def isTokenChar (c : Char) : Bool :=
  c.isAlphanum || c = '_' || c = '-' || c = '+' || c = '.' || c = ':'

/-- A number or a date at the front of a text, and the rest. -/
def tokenAt (text : List Char) : Option (List Char) :=
  let token := text.takeWhile isTokenChar
  let rest := text.dropWhile isTokenChar
  if isDate token then
    match rest with
    | ' ' :: more =>
      if isZonedTime (more.takeWhile isTokenChar) then some (more.dropWhile isTokenChar) else some rest
    | rest => some rest
  else if isIntegerToken token || isFloatToken token || isDateToken token then some rest
  else none

end WireSchema.Toml
