import WireSchema.Bytes.Inflate
import WireSchema.Bytes.LittleEndian
import WireSchema.Json.Reader
import WireSchema.Schema.Document
import WireSchema.Schema.Legacy
import WireSchema.Text.Utf8

/-!
# Where documents come from

A document is the JSON text of an object. On chain it is kept compressed in an
account, behind a header of 44 bytes: a discriminator and an authority, both
ignored, and the length of the compressed part.
-/

namespace WireSchema.Schema

set_option autoImplicit false

inductive SourceError where
  | legacy (marker : LegacyMarker)
  | unreadable (fault : Json.Fault)
  | shape (error : ShapeError)
  | record (error : RecordError)
  | compressed (reason : String)

def faultText : Json.Fault → String
  | .truncated => "unexpected end of text"
  | .malformed => "malformed text"

def SourceError.message : SourceError → String
  | .legacy marker =>
    s!"IDL uses the legacy (pre-0.30) format ({marker.text}); convert it with `anchor idl convert` first"
  | .unreadable fault => s!"Failed to parse IDL JSON: {faultText fault}"
  | .shape error => s!"Failed to parse IDL: {error.message}"
  | .record error => s!"Failed to parse IDL JSON: {error.message}"
  | .compressed reason => s!"Failed to decompress IDL data: {reason}"

/-- The document of a JSON value, which must be an object. -/
def Document.ofJson (json : Json) : Except SourceError Document :=
  match json with
  | .obj entries => (Document.read (.obj entries)).mapError .record
  | json => .error (.shape (.unknownDocument (payload json)))

/-- The document of a text. The older format is refused before anything else. -/
def Document.ofText (text : String) : Except SourceError Document := do
  match legacyMarker? text with
  | some marker => .error (.legacy marker)
  | none =>
    let json ← (Json.ofText text).mapError .unreadable
    Document.ofJson json

/-- The bytes before the length of the compressed part. -/
def lengthOffset : Nat := 8 + 32

def headerSize : Nat := lengthOffset + 4

/-- The two ways to decompress: data that has an envelope, and data that has none. Data of another kind has
no result. -/
structure Decompressors where
  envelope : List UInt8 → Option (List UInt8)
  raw : List UInt8 → Option (List UInt8)

def Decompressors.inflating : Decompressors :=
  ⟨Bytes.inflateEnvelope?, Bytes.inflate?⟩

/-- Compressed data is tried with an envelope first and without one after that. -/
def decompress (ways : Decompressors) (data : List UInt8) : Except SourceError (List UInt8) :=
  match ways.envelope data with
  | some bytes => .ok bytes
  | none =>
    match ways.raw data with
    | some bytes => .ok bytes
    | none => .error (.compressed "Failed to decompress IDL data")

/-- The document in the data of an account. What follows the compressed part is ignored. -/
def Document.ofAccount (ways : Decompressors) (data : List UInt8) : Except SourceError Document := do
  if data.length < headerSize then
    throw (.compressed "Account data too small for IDL header")
  let length := Bytes.leNat ((data.drop lengthOffset).take 4)
  let rest := data.drop headerSize
  if length = 0 then
    throw (.compressed "IDL compressed data is empty")
  if rest.length < length then
    throw (.compressed s!"Compressed data truncated: expected {length} bytes, got {rest.length}")
  let bytes ← decompress ways (rest.take length)
  match Text.ofUtf8? bytes with
  | some text => Document.ofText text
  | none => throw (.compressed "Invalid UTF-8")

def Document.ofAccountData (data : List UInt8) : Except SourceError Document :=
  Document.ofAccount .inflating data

end WireSchema.Schema
