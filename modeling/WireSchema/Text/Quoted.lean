import WireSchema.Unicode.Printable

/-!
# Quoted text in messages

A text inside a message stands between double quotes. Quotes, backslashes and
the common control characters are escaped by a letter, every other character
that cannot be shown by its code point in braces.
-/

namespace WireSchema.Text

set_option autoImplicit false

open Unicode

/-- One character as it stands between the quotes. -/
def quotedChar (c : Char) : List Char :=
  if c = '"' then ['\\', '"']
  else if c = '\\' then ['\\', '\\']
  else if c = '\n' then ['\\', 'n']
  else if c = '\r' then ['\\', 'r']
  else if c = '\t' then ['\\', 't']
  else if c.toNat = 0 then ['\\', '0']
  else if isPrintable c && !isExtender c then [c]
  else ['\\', 'u', '\x7b'] ++ Nat.toDigits 16 c.toNat ++ ['\x7d']

def quoted (text : String) : String :=
  String.ofList ('"' :: text.toList.flatMap quotedChar ++ ['"'])

end WireSchema.Text
