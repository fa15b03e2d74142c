import WireSchema.Json.Number

/-!
# Reading JSON

A text is read from the front. Arrays and objects may be nested 127 deep. Where
the text is wrong, the first fault met from the left decides between the two
kinds of `Fault`; where it stands is not reported.
-/

namespace WireSchema.Json

set_option autoImplicit false

def isGap (c : Char) : Bool :=
  c = ' ' || c = '\n' || c = '\t' || c = '\r'

def skipGap (text : List Char) : List Char :=
  text.dropWhile isGap

def hexValue? (c : Char) : Option Nat :=
  if '0' ≤ c ∧ c ≤ '9' then some (c.toNat - 48)
  else if 'a' ≤ c ∧ c ≤ 'f' then some (c.toNat - 87)
  else if 'A' ≤ c ∧ c ≤ 'F' then some (c.toNat - 55)
  else none

/-- The four hexadecimal digits of a code unit. The text is too short when fewer than four bytes of it
are left, whatever they are. -/
def codeUnitOf : List Char → Except Fault (Nat × List Char)
  | a :: b :: c :: d :: rest =>
    match hexValue? a, hexValue? b, hexValue? c, hexValue? d with
    | some a, some b, some c, some d => .ok (((a * 16 + b) * 16 + c) * 16 + d, rest)
    | _, _, _, _ => .error .malformed
  | few => if (String.ofList few).utf8ByteSize < 4 then .error .truncated else .error .malformed

/-- The character written as one code unit or as a pair of surrogates. -/
def unicodeEscapeOf (text : List Char) : Except Fault (Char × List Char) := do
  let (unit, rest) ← codeUnitOf text
  if unit < 0xD800 ∨ 0xDFFF < unit then return (Char.ofNat unit, rest)
  else if 0xDC00 ≤ unit then .error .malformed
  else
    match rest with
    | [] => .error .truncated
    | ['\\'] => .error .truncated
    | '\\' :: 'u' :: rest =>
      let (low, rest) ← codeUnitOf rest
      if low < 0xDC00 ∨ 0xDFFF < low then .error .malformed
      else return (Char.ofNat (0x10000 + (unit - 0xD800) * 0x400 + (low - 0xDC00)), rest)
    | _ => .error .malformed

/-- The character after a backslash, where it stands for one character. -/
def shortEscape? (c : Char) : Option Char :=
  if c = '"' ∨ c = '\\' ∨ c = '/' then some c
  else if c = 'b' then some (Char.ofNat 8)
  else if c = 'f' then some (Char.ofNat 12)
  else if c = 'n' then some '\n'
  else if c = 'r' then some '\r'
  else if c = 't' then some '\t'
  else none

/-- The rest of a string after its opening quote; `read` holds its characters so far, last first.
`fuel` bounds the characters. -/
def stringFrom (fuel : Nat) (read : List Char) (text : List Char) :
    Except Fault (String × List Char) :=
  match fuel, text with
  | 0, _ => .error .truncated
  | _, [] => .error .truncated
  | fuel + 1, c :: rest =>
    if c = '"' then .ok (String.ofList read.reverse, rest)
    else if c = '\\' then
      match rest with
      | [] => .error .truncated
      | e :: rest =>
        if e = 'u' then do
          let (c, rest) ← unicodeEscapeOf rest
          stringFrom fuel (c :: read) rest
        else
          match shortEscape? e with
          | some c => stringFrom fuel (c :: read) rest
          | none => .error .malformed
    else if c.toNat < 32 then .error .malformed
    else stringFrom fuel (c :: read) rest

def stringOf (text : List Char) : Except Fault (String × List Char) :=
  stringFrom (text.length + 1) [] text

/-- The letters that a keyword still needs. -/
def keywordOf : List Char → List Char → Except Fault (List Char)
  | [], text => .ok text
  | _ :: _, [] => .error .truncated
  | k :: word, c :: rest => if c = k then keywordOf word rest else .error .malformed

/-- After an item: the end of the list, or a comma and something behind it. -/
inductive Separation where
  | closed (rest : List Char)
  | more (rest : List Char)

def separationOf (close : Char) (text : List Char) : Except Fault Separation :=
  match skipGap text with
  | [] => .error .truncated
  | c :: rest =>
    if c = close then .ok (.closed rest)
    else if c = ',' then .ok (.more rest)
    else .error .malformed

mutual

/-- One value. `levels` is how many arrays and objects may still be opened; `fuel` bounds the steps. -/
def valueOf (fuel levels : Nat) (text : List Char) : Except Fault (Json × List Char) :=
  match fuel with
  | 0 => .error .truncated
  | fuel + 1 =>
    match skipGap text with
    | [] => .error .truncated
    | c :: rest =>
      if c = 'n' then do return (.null, ← keywordOf ['u', 'l', 'l'] rest)
      else if c = 't' then do return (.bool true, ← keywordOf ['r', 'u', 'e'] rest)
      else if c = 'f' then do return (.bool false, ← keywordOf ['a', 'l', 's', 'e'] rest)
      else if c = '-' then numberOf true rest
      else if (digit? c).isSome then numberOf false (c :: rest)
      else if c = '"' then do
        let (text, rest) ← stringOf rest
        return (.str text, rest)
      else if c = '[' then
        match levels, skipGap rest with
        | 0, _ => .error .malformed
        | _ + 1, ']' :: rest => .ok (.arr [], rest)
        | levels + 1, rest => do
          let (items, rest) ← itemsOf fuel levels rest
          return (.arr items, rest)
      else if c = '\x7b' then
        match levels, skipGap rest with
        | 0, _ => .error .malformed
        | _ + 1, '\x7d' :: rest => .ok (.obj [], rest)
        | levels + 1, rest => do
          let (entries, rest) ← entriesOf fuel levels rest
          return (ofEntries entries, rest)
      else .error .malformed

/-- The items of an array up to its closing bracket; at least one. -/
def itemsOf (fuel levels : Nat) (text : List Char) : Except Fault (List Json × List Char) :=
  match fuel with
  | 0 => .error .truncated
  | fuel + 1 => do
    let (item, rest) ← valueOf fuel levels text
    match ← separationOf ']' rest with
    | .closed rest => return ([item], rest)
    | .more rest =>
      let (items, rest) ← itemsOf fuel levels rest
      return (item :: items, rest)

/-- The entries of an object up to its closing brace; at least one. -/
def entriesOf (fuel levels : Nat) (text : List Char) :
    Except Fault (List (String × Json) × List Char) :=
  match fuel with
  | 0 => .error .truncated
  | fuel + 1 =>
    match skipGap text with
    | [] => .error .truncated
    | '"' :: rest => do
      let (key, rest) ← stringOf rest
      match skipGap rest with
      | [] => .error .truncated
      | ':' :: rest =>
        let (value, rest) ← valueOf fuel levels rest
        match ← separationOf '\x7d' rest with
        | .closed rest => return ([(key, value)], rest)
        | .more rest =>
          let (entries, rest) ← entriesOf fuel levels rest
          return ((key, value) :: entries, rest)
      | _ => .error .malformed
    | _ => .error .malformed

end

/-- How deep arrays and objects may be nested. -/
def maxLevels : Nat := 127

/-- The value of a whole text; nothing but blanks may follow it. -/
def ofText (text : String) : Except Fault Json := do
  let chars := text.toList
  let (json, rest) ← valueOf (2 * chars.length + 2) maxLevels chars
  match skipGap rest with
  | [] => return json
  | _ => .error .malformed

end WireSchema.Json
