import WireSchema.Toml.Basic
import WireSchema.Toml.Token

/-!
# Reading settings files

The format is TOML 1.0. A text either is a tree of settings or it is not; why
not is not told. Lists and tables in braces may be nested 79 deep, and a dotted
key may have 79 parts.
-/

namespace WireSchema.Toml

set_option autoImplicit false

def isBlank (c : Char) : Bool :=
  c = ' ' || c = '\t'

def skipBlanks (text : List Char) : List Char :=
  text.dropWhile isBlank

/-- The rest behind a line break. -/
def lineBreakAt : List Char → Option (List Char)
  | '\n' :: rest => some rest
  | '\r' :: '\n' :: rest => some rest
  | _ => none

/-- Characters that may stand for themselves: no control characters but the tab. -/
def isPlain (c : Char) : Bool :=
  c = '\t' || (' ' ≤ c && c.toNat ≠ 127)

/-- The rest of a line that holds nothing more but perhaps a comment. -/
def lineEndAt (text : List Char) : Option (List Char) :=
  let rest := match skipBlanks text with
    | '#' :: rest => rest.dropWhile isPlain
    | rest => rest
  if rest.isEmpty then some [] else lineBreakAt rest

/-- Blanks, line breaks and comments; `fuel` bounds their number. -/
def skipGaps : Nat → List Char → List Char
  | 0, text => text
  | fuel + 1, text =>
    match skipBlanks text with
    | '#' :: rest => skipGaps fuel (rest.dropWhile isPlain)
    | rest =>
      match lineBreakAt rest with
      | some rest => skipGaps fuel rest
      | none => rest

/-- The character with a code of exactly `count` hexadecimal digits. -/
def codeAt (count : Nat) (text : List Char) : Option (Char × List Char) :=
  let front := text.take count
  let code := valueIn 16 front
  if front.length = count && front.all isHexDigit && (code < 0xD800 || (0xDFFF < code && code < 0x110000)) then
    some (Char.ofNat code, text.drop count)
  else none

/-- The character that a backslash and what follows it stand for. -/
def escapeAt : List Char → Option (Char × List Char)
  | 'b' :: rest => some (Char.ofNat 8, rest)
  | 't' :: rest => some ('\t', rest)
  | 'n' :: rest => some ('\n', rest)
  | 'f' :: rest => some (Char.ofNat 12, rest)
  | 'r' :: rest => some ('\r', rest)
  | '"' :: rest => some ('"', rest)
  | '\\' :: rest => some ('\\', rest)
  | 'u' :: rest => codeAt 4 rest
  | 'U' :: rest => codeAt 8 rest
  | _ => none

/-- The rest of a text in double quotes; `read` holds what came before, last first. -/
def basicFrom : Nat → List Char → List Char → Option (String × List Char)
  | 0, _, _ => none
  | _, _, [] => none
  | fuel + 1, read, c :: rest =>
    if c = '"' then some (String.ofList read.reverse, rest)
    else if c = '\\' then do
      let (c, rest) ← escapeAt rest
      basicFrom fuel (c :: read) rest
    else if isPlain c then basicFrom fuel (c :: read) rest
    else none

/-- A text in single quotes. -/
def literalAt (text : List Char) : Option (String × List Char) :=
  let front := text.takeWhile fun c => c ≠ '\'' && isPlain c
  match text.drop front.length with
  | '\'' :: rest => some (String.ofList front, rest)
  | _ => none

/-- The rest of a text over several lines. Three quotes end it, and up to two more before them belong
to it. With `escapes` a backslash escapes, at the end of a line also the line break and all white space
after it. -/
def longFrom (quote : Char) (escapes : Bool) : Nat → List Char → List Char → Option (String × List Char)
  | 0, _, _ => none
  | _, _, [] => none
  | fuel + 1, read, c :: rest =>
    if c = quote then
      let count := 1 + (rest.takeWhile (· = quote)).length
      if 3 ≤ count then
        let inside := min (count - 3) 2
        let after := (c :: rest).drop (inside + 3)
        some (String.ofList (List.replicate inside quote ++ read).reverse, after)
      else longFrom quote escapes fuel (c :: read) rest
    else if escapes && c = '\\' then
      match lineBreakAt (skipBlanks rest) with
      | some rest =>
        longFrom quote escapes fuel read (rest.dropWhile fun c => isBlank c || c = '\n' || c = '\r')
      | none => do
        let (c, rest) ← escapeAt rest
        longFrom quote escapes fuel (c :: read) rest
    else if isPlain c then longFrom quote escapes fuel (c :: read) rest
    else do longFrom quote escapes fuel ('\n' :: read) (← lineBreakAt (c :: rest))

/-- A text over several lines; a line break right at its start does not count. -/
def longAt (quote : Char) (escapes : Bool) (text : List Char) : Option (String × List Char) :=
  let text := (lineBreakAt text).getD text
  longFrom quote escapes (text.length + 1) [] text

/-- A text in any of its four forms. -/
def textAt : List Char → Option (String × List Char)
  | '"' :: '"' :: '"' :: rest => longAt '"' true rest
  | '"' :: rest => basicFrom (rest.length + 1) [] rest
  | '\'' :: '\'' :: '\'' :: rest => longAt '\'' false rest
  | '\'' :: rest => literalAt rest
  | _ => none

def isKeyChar (c : Char) : Bool :=
  c.isAlphanum || c = '_' || c = '-'

/-- One part of a key: bare, or a text on one line. -/
def keyPartAt (text : List Char) : Option (String × List Char) :=
  match text with
  | '"' :: rest => basicFrom (rest.length + 1) [] rest
  | '\'' :: rest => literalAt rest
  | text =>
    let front := text.takeWhile isKeyChar
    if front.isEmpty then none else some (String.ofList front, text.drop front.length)

/-- The parts of a key, which dots part; `fuel` bounds their number. -/
def keyAt : Nat → List Char → Option (List String × List Char)
  | 0, _ => none
  | fuel + 1, text => do
    let (part, rest) ← keyPartAt text
    match skipBlanks rest with
    | '.' :: rest =>
      let (parts, rest) ← keyAt fuel (skipBlanks rest)
      return (part :: parts, rest)
    | rest => return ([part], rest)

/-- How deep values and dotted keys may go. -/
def maxLevels : Nat := 79

mutual

/-- A value; `levels` is how many lists and tables may still be opened. -/
def valueAt (fuel levels : Nat) (text : List Char) : Option (Leaf × List Char) :=
  match fuel with
  | 0 => none
  | fuel + 1 =>
    match text with
    | [] => none
    | c :: rest =>
      if c = '"' ∨ c = '\'' then do
        let (value, rest) ← textAt (c :: rest)
        return (.text value, rest)
      else if c = '[' then
        match levels with
        | 0 => none
        | levels + 1 => do return (.other, ← itemsAt fuel levels (skipGaps rest.length rest))
      else if c = '\x7b' then
        match levels, skipBlanks rest with
        | 0, _ => none
        | _ + 1, '\x7d' :: rest => some (.other, rest)
        | levels + 1, rest => do return (.other, ← pairsAt fuel levels [] rest)
      else if "true".toList.isPrefixOf (c :: rest) then some (.switch true, rest.drop 3)
      else if "false".toList.isPrefixOf (c :: rest) then some (.switch false, rest.drop 4)
      else do return (.other, ← tokenAt (c :: rest))

/-- The items of a list up to its closing bracket. A comma may follow the last. -/
def itemsAt (fuel levels : Nat) (text : List Char) : Option (List Char) :=
  match fuel with
  | 0 => none
  | fuel + 1 =>
    match text with
    | ']' :: rest => some rest
    | text => do
      let (_, rest) ← valueAt fuel levels text
      match skipGaps rest.length rest with
      | ',' :: rest => itemsAt fuel levels (skipGaps rest.length rest)
      | ']' :: rest => some rest
      | _ => none

/-- The entries of a table in braces up to the closing one; at least one. -/
def pairsAt (fuel levels : Nat) (entries : Entries) (text : List Char) : Option (List Char) :=
  match fuel with
  | 0 => none
  | fuel + 1 => do
    let (key, rest) ← keyAt maxLevels text
    match skipBlanks rest with
    | '=' :: rest =>
      let (leaf, rest) ← valueAt fuel levels (skipBlanks rest)
      let entries ← addValue key leaf entries
      match skipBlanks rest with
      | ',' :: rest => pairsAt fuel levels entries (skipBlanks rest)
      | '\x7d' :: rest => some rest
      | _ => none
    | _ => none

end

/-- The tree so far, and the table that lines without a header belong to. -/
structure Progress where
  root : Entries
  current : List String

/-- A line that puts a value under a key. -/
def entryAt (state : Progress) (text : List Char) : Option (Progress × List Char) := do
  let (key, rest) ← keyAt maxLevels text
  match skipBlanks rest with
  | '=' :: rest =>
    let value := skipBlanks rest
    let (leaf, rest) ← valueAt (2 * value.length + 2) maxLevels value
    let root ← changeAt (addValue key leaf) state.current state.root
    return (⟨root, state.current⟩, ← lineEndAt rest)
  | _ => none

/-- Make the table of a header the one that lines belong to. -/
def enter (state : Progress) (key : List String) (change : String → Entries → Option Entries) :
    Option Progress := do
  let last ← key.getLast?
  let root ← changeAt (change last) key.dropLast state.root
  return ⟨root, key⟩

/-- A header in one or two pairs of brackets. -/
def headerAt (state : Progress) : List Char → Option (Progress × List Char)
  | '[' :: rest => do
    let (key, rest) ← keyAt maxLevels (skipBlanks rest)
    match skipBlanks rest with
    | ']' :: ']' :: rest => return (← enter state key addTable, ← lineEndAt rest)
    | _ => none
  | rest => do
    let (key, rest) ← keyAt maxLevels (skipBlanks rest)
    match skipBlanks rest with
    | ']' :: rest => return (← enter state key openTable, ← lineEndAt rest)
    | _ => none

/-- All lines from here on; `fuel` bounds their number. -/
def linesFrom : Nat → Progress → List Char → Option Entries
  | 0, _, _ => none
  | fuel + 1, state, text =>
    match skipBlanks text with
    | [] => some state.root
    | '[' :: rest => do
      let (state, rest) ← headerAt state rest
      linesFrom fuel state rest
    | c :: rest =>
      match lineEndAt (c :: rest) with
      | some rest => linesFrom fuel state rest
      | none => do
        let (state, rest) ← entryAt state (c :: rest)
        linesFrom fuel state rest

/-- The tree of a whole text. A byte order mark at its start does not count. -/
def ofText? (text : String) : Option Entries :=
  let chars := match text.toList with
    | c :: rest => if c.toNat = 0xFEFF then rest else c :: rest
    | [] => []
  linesFrom (chars.length + 1) ⟨[], []⟩ chars

end WireSchema.Toml
