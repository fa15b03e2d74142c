import WireSchema.Json.Basic
import WireSchema.Decimal.Shortest

/-!
# Writing JSON

The compact form has no blanks at all. The indented form gives every item and
every entry a line of its own, two more blanks deeper for each level.
-/

namespace WireSchema.Json

set_option autoImplicit false

open Decimal

/-- Doubles are written positionally while the leading digit stands between the fifth place after the
point and the sixteenth before it. -/
def numberStyle : NumberStyle := ⟨-5, 15⟩

/-- One character as it stands in a string. -/
def escapedChar (c : Char) : List Char :=
  if c = '"' then ['\\', '"']
  else if c = '\\' then ['\\', '\\']
  else if c.toNat = 8 then ['\\', 'b']
  else if c.toNat = 12 then ['\\', 'f']
  else if c = '\n' then ['\\', 'n']
  else if c = '\r' then ['\\', 'r']
  else if c = '\t' then ['\\', 't']
  else if c.toNat < 32 then
    ['\\', 'u', '0', '0', Nat.digitChar (c.toNat / 16), Nat.digitChar (c.toNat % 16)]
  else [c]

def string (text : String) : String :=
  String.ofList ('"' :: text.toList.flatMap escapedChar ++ ['"'])

/-- A double; what is not finite has no JSON form and is written as `null`. -/
def number (bits : UInt64) : String :=
  if isFinite bits.toNat then String.ofList (numberStyle.render bits.toNat) else "null"

/-- What is written for values without parts. -/
def atom : Json → String
  | .null => "null"
  | .bool true => "true"
  | .bool false => "false"
  | .int n => toString n
  | .float bits => number bits
  | .str text => string text
  | .arr _ => "[]"
  | .obj _ => "\x7b\x7d"

mutual

/-- The form without blanks. -/
def compact : Json → String
  | .arr items => "[" ++ compactItems true items ++ "]"
  | .obj entries => "\x7b" ++ compactEntries true entries ++ "\x7d"
  | json => atom json

def compactItems (first : Bool) : List Json → String
  | [] => ""
  | item :: rest => (if first then "" else ",") ++ compact item ++ compactItems false rest

def compactEntries (first : Bool) : List (String × Json) → String
  | [] => ""
  | (key, value) :: rest =>
    (if first then "" else ",") ++ string key ++ ":" ++ compact value ++ compactEntries false rest

end

/-- A new line at a level of nesting. -/
def lineAt (level : Nat) : String :=
  String.ofList ('\n' :: List.replicate (2 * level) ' ')

mutual

/-- The form with one item or entry a line. -/
def pretty (level : Nat) : Json → String
  | .arr (item :: rest) =>
    "[" ++ prettyItems (level + 1) true (item :: rest) ++ lineAt level ++ "]"
  | .obj (entry :: rest) =>
    "\x7b" ++ prettyEntries (level + 1) true (entry :: rest) ++ lineAt level ++ "\x7d"
  | json => atom json

def prettyItems (level : Nat) (first : Bool) : List Json → String
  | [] => ""
  | item :: rest =>
    (if first then "" else ",") ++ lineAt level ++ pretty level item ++ prettyItems level false rest

def prettyEntries (level : Nat) (first : Bool) : List (String × Json) → String
  | [] => ""
  | (key, value) :: rest =>
    (if first then "" else ",") ++ lineAt level ++ string key ++ ": " ++ pretty level value
      ++ prettyEntries level false rest

end

example : compact (.obj [("a", .arr [.int 1, .null]), ("b", .str "\n")])
    = "\x7b\"a\":[1,null],\"b\":\"\\n\"\x7d" := by decide +kernel

end WireSchema.Json
