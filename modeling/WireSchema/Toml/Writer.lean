/-!
# Writing texts in settings files

A text is written between double quotes as long as nothing in it needs an
escape, between single quotes if that is enough, and else over several lines or
with escapes. Main choices: a backslash prefers single quotes, a control
character needs double ones, a line break needs three quotes.
-/

namespace WireSchema.Toml

set_option autoImplicit false

/-- The length of the longest row of a character in a text; `row` is the length of the one before it. -/
def longestRow (c : Char) (row : Nat) : List Char → Nat
  | [] => row
  | d :: rest => if d = c then longestRow c (row + 1) rest else max row (longestRow c 0 rest)

/-- Control characters that have no plain form: all but the tab and the line break. -/
def needsCode (c : Char) : Bool :=
  (c.toNat < 32 && c ≠ '\t' && c ≠ '\n') || c.toNat = 127

def upperHexDigit (n : Nat) : Char :=
  (Nat.digitChar n).toUpper

/-- A control character as an escape. -/
def escaped (c : Char) : List Char :=
  if c.toNat = 8 then ['\\', 'b']
  else if c = '\t' then ['\\', 't']
  else if c = '\n' then ['\\', 'n']
  else if c.toNat = 12 then ['\\', 'f']
  else if c = '\r' then ['\\', 'r']
  else ['\\', 'u', '0', '0', upperHexDigit (c.toNat / 16), upperHexDigit (c.toNat % 16)]

/-- The inside of a text in double quotes. A row of more than `quotes` double quotes is broken by
escaping one; line breaks stay if `lines` is set. `row` counts the double quotes just written. -/
def basicChars (quotes : Nat) (lines : Bool) (row : Nat) : List Char → List Char
  | [] => []
  | c :: rest =>
    if c = '"' then
      if quotes ≤ row then '\\' :: '"' :: basicChars quotes lines 0 rest
      else '"' :: basicChars quotes lines (row + 1) rest
    else if c = '\\' then '\\' :: '\\' :: basicChars quotes lines 0 rest
    else if lines && c = '\n' then '\n' :: basicChars quotes lines 0 rest
    else if c.toNat < 32 || c.toNat = 127 then escaped c ++ basicChars quotes lines 0 rest
    else c :: basicChars quotes lines 0 rest

/-- A text as a value. -/
def textValue (text : String) : String :=
  let chars := text.toList
  let coded := chars.any needsCode
  let broken := chars.contains '\n'
  let backslash := chars.contains '\\'
  let double := longestRow '"' 0 chars
  let single := longestRow '\'' 0 chars
  let start := if broken then ['\n'] else []
  let basic := '"' :: basicChars 0 false 0 chars ++ ['"']
  let longBasic := ['"', '"', '"'] ++ start ++ basicChars 2 true 0 chars ++ ['"', '"', '"']
  let literal := '\'' :: chars ++ ['\'']
  let longLiteral := ['\'', '\'', '\''] ++ start ++ chars ++ ['\'', '\'', '\'']
  String.ofList <|
    if !coded && !backslash && double = 0 && !broken then basic
    else if !coded && single = 0 && !broken then literal
    else if !coded && !backslash && double ≤ 2 then longBasic
    else if !coded && single ≤ 2 then longLiteral
    else if broken then longBasic
    else basic

end WireSchema.Toml
