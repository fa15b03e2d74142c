import WireSchema.Unicode.Ranges

/-!
# Documents of the older format

The older format is recognised from the text, before it is read as JSON: by two
quoted words that stood in its account lists, or by opening with a version. The
words count wherever they stand, also inside a string.
-/

namespace WireSchema.Schema

set_option autoImplicit false

inductive LegacyMarker where
  | isMut
  | isSigner
  | versionEnvelope
deriving DecidableEq, Repr

def LegacyMarker.text : LegacyMarker → String
  | .isMut => "isMut"
  | .isSigner => "isSigner"
  | .versionEnvelope => "version envelope"

/-- Whether `part` occurs somewhere in a text. -/
def occursIn (part : List Char) : List Char → Bool
  | [] => part.isEmpty
  | c :: rest => part.isPrefixOf (c :: rest) || occursIn part rest

/-- How an older document opens when its white space is taken out. -/
def envelopeOpening : List Char := "\x7b\"version\":".toList

/-- What gives a document away as one of the older format. -/
def legacyMarker? (text : String) : Option LegacyMarker :=
  let chars := text.toList
  if occursIn "\"isMut\"".toList chars then some .isMut
  else if occursIn "\"isSigner\"".toList chars then some .isSigner
  else if envelopeOpening.isPrefixOf (chars.filter fun c => !Unicode.isBlank c) then
    some .versionEnvelope
  else none

end WireSchema.Schema
