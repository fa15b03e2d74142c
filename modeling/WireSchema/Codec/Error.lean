import WireSchema.Schema.Discriminator

/-!
# Why a value cannot be written or bytes cannot be read
-/

namespace WireSchema

set_option autoImplicit false

open Schema

inductive CodecError where
  | unexpectedEnd (needed remaining : Nat)
  | invalidBool (byte : UInt8)
  | invalidOptionTag (tag : Nat)
  | invalidUtf8
  | discriminatorMismatch (expected actual : Discriminator)
  | unknownIndex (name : String) (index : Nat) (variants : Nat)
  | unknownVariant (name variant : String)
  | missingField (field : String)
  | typeMismatch (expected found : String)
  | arrayLength (expected actual : Nat)
  | lengthOverflow (length : Nat)
  | depthLimit (levels : Nat)
  | zeroSizedElements (codec : String) (count : Nat)
  | trailingBytes (count : Nat)
  | unknownEntity (kind name : String)
  | unknownDiscriminator (kind : String) (discriminator : Discriminator)
  | missingLayout (key : String)
deriving DecidableEq, Repr

def CodecError.message : CodecError → String
  | .unexpectedEnd needed remaining =>
    s!"unexpected end of data: needed {needed} byte(s), {remaining} remaining"
  | .invalidBool byte => s!"invalid bool byte {byte}"
  | .invalidOptionTag tag => s!"invalid option tag {tag}"
  | .invalidUtf8 => "invalid UTF-8 in string"
  | .discriminatorMismatch expected actual =>
    s!"discriminator mismatch: expected {expected.toHex}, got {actual.toHex}"
  | .unknownIndex name index variants =>
    s!"unknown enum index {index} for `{name}` ({variants} variants)"
  | .unknownVariant name variant => s!"unknown variant `{variant}` for enum `{name}`"
  | .missingField field => s!"missing field `{field}`"
  | .typeMismatch expected found => s!"type mismatch: expected {expected}, found {found}"
  | .arrayLength expected actual => s!"array length mismatch: expected {expected}, found {actual}"
  | .lengthOverflow length => s!"length {length} does not fit a u32 prefix"
  | .depthLimit levels => s!"value nesting exceeds {levels} levels"
  | .zeroSizedElements codec count =>
    s!"{count} element(s) of zero-sized `{codec}` cannot be encoded"
  | .trailingBytes count => s!"{count} trailing byte(s) after value"
  | .unknownEntity kind name => s!"unknown {kind} `{name}`"
  | .unknownDiscriminator kind discriminator =>
    s!"no {kind} matches discriminator {discriminator.toHex}"
  | .missingLayout key => s!"no codec derived for `{key}`"

end WireSchema
