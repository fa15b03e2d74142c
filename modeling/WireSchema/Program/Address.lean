import WireSchema.Bytes.Base58
import WireSchema.Bytes.Curve
import WireSchema.Bytes.Sha256
import WireSchema.Text.Utf8

/-!
# Where a program keeps its document

The address of the account is derived from the key of the program alone, by way
of a key that is no point of the curve and so has no owner. Keys are byte
strings; that they have 32 bytes is up to the caller.
-/

namespace WireSchema.Program

set_option autoImplicit false

open Bytes Text

/-- What marks the hash of a derived address. -/
def derivedMarker : List UInt8 :=
  utf8 "ProgramDerivedAddress"

/-- The hash for one value of the bump byte, unless it lies on the curve. -/
def derivedAddress? (program : List UInt8) (bump : Nat) : Option (List UInt8) :=
  let hash := sha256 (UInt8.ofNat bump :: program ++ derivedMarker)
  if isOnCurve hash then none else some hash

/-- The derived address with the greatest bump byte above zero. -/
def signer? (program : List UInt8) : Option (List UInt8) :=
  (List.range 255).findSome? fun i => derivedAddress? program (255 - i)

inductive AddressError where
  | noSigner
  | illegalOwner
deriving DecidableEq, Repr

def AddressError.message : AddressError → String
  | .noSigner => "Unable to find a viable program address bump seed"
  | .illegalOwner => "Provided owner is not allowed"

/-- The address of the account with the document of a program. -/
def documentAddress (program : List UInt8) : Except AddressError (List UInt8) :=
  match signer? program with
  | none => .error .noSigner
  | some signer =>
    if derivedMarker.isSuffixOf program then .error .illegalOwner
    else .ok (sha256 (signer ++ utf8 "anchor:idl" ++ program))

end WireSchema.Program
