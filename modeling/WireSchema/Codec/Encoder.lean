import WireSchema.Codec.Reader
import WireSchema.Codec.Value

/-!
# Writing values

Numbers are written least significant byte first, counts in four bytes. An
optional value starts with its tag, an enumeration with the index of the
variant in one byte. Fields are found by name: a struct may hold them in any
order, and what the layout does not name is left out. Bytes go to the end of a
buffer, and a failure leaves there what was written before it.
-/

namespace WireSchema

set_option autoImplicit false

open Schema

/-- A writing step: it may fail, and extends the buffer either way. -/
abbrev Encoder : Type := ExceptT CodecError (StateM (Array UInt8)) Unit

namespace Encoder

def emit (bytes : List UInt8) : Encoder :=
  modify fun buffer => bytes.foldl Array.push buffer

/-- A count in four bytes. -/
def emitCount (n : Nat) : Encoder :=
  if n < Nat.pow 2 32 then emit (Bytes.leBytes 4 n) else throw (.lengthOverflow n)

end Encoder

/-- What a codec comes to when aliases are followed. -/
inductive Target where
  | plain (codec : Codec)
  | layout (key : String) (layout : Layout)
  | missing (key : String)

namespace LayoutSet

/-- Follow aliases, `fuel` of them at most. -/
def targetWithin (set : LayoutSet) : Nat → Codec → Target
  | fuel, .defined key =>
    match set.get? key with
    | none => .missing key
    | some (.aliasOf inner) =>
      match fuel with
      | 0 => .missing key
      | fuel + 1 => set.targetWithin fuel inner
    | some layout => .layout key layout
  | _, codec => .plain codec

def target (set : LayoutSet) (codec : Codec) : Target :=
  set.targetWithin (set.length + 1) codec

/-- Elements that take no bytes could not be counted again, so there must be none. -/
def refuseZeroSized (set : LayoutSet) (inner : Codec) (count : Nat) : Option CodecError :=
  if 0 < count ∧ set.minSize inner = 0 then some (.zeroSizedElements inner.text count) else none

end LayoutSet

/-- The error for a value that a target does not take. -/
def Target.refuse (t : Target) (kind : String) : Encoder :=
  match t with
  | .plain codec => throw (.typeMismatch codec.text kind)
  | .layout key _ => throw (.typeMismatch key kind)
  | .missing key => throw (.missingLayout key)

/-- The values of some fields as the ways to write them under a codec. -/
abbrev FieldWriters : Type := List (String × (Codec → Encoder))

/-- Write the fields that a layout names, in its order. -/
def writeFields (writers : FieldWriters) : List FieldCodec → Encoder
  | [] => return ()
  | field :: rest => do
    match writers.lookup field.name with
    | some write => write field.codec
    | none => throw (.missingField field.name)
    writeFields writers rest

/-- Write a variant of an enumeration none of whose variants has a payload. -/
def writeSimple (key : String) (names : List String) (variant : String) (fieldCount : Nat) :
    Encoder := do
  if 0 < fieldCount then
    throw (.typeMismatch s!"unit variant of {key}" s!"{variant} with fields")
  match names.findIdx? (· = variant) with
  | some index => Encoder.emit [UInt8.ofNat index]
  | none => throw (.unknownVariant key variant)

/-- Write a variant and its payload. An empty payload may be given or left out on either side. -/
def writeComplex (key : String) (variants : List VariantCodec) (variant : String)
    (payload : Option FieldWriters) : Encoder := do
  match variants.findIdx? (·.name = variant) with
  | none => throw (.unknownVariant key variant)
  | some index =>
    Encoder.emit [UInt8.ofNat index]
    match variants[index]?.bind VariantCodec.fields, payload with
    | some fields, some writers => writeFields writers fields
    | some [], none => return ()
    | some (first :: _), none => throw (.missingField s!"{key}::{variant}.{first.name}")
    | none, some (_ :: _) => throw (.typeMismatch s!"unit variant {key}::{variant}" "variant with fields")
    | none, _ => return ()

mutual

/-- Write a value under a codec. -/
def Value.write (set : LayoutSet) : Value → Codec → Encoder
  | .bool b, codec =>
    match set.target codec with
    | .plain (.prim .bool) => Encoder.emit [if b then 1 else 0]
    | t => t.refuse "bool"
  | .scalar s bits, codec =>
    match set.target codec with
    | .plain (.prim (.scalar s')) =>
      if s' = s then Encoder.emit (Bytes.leBytes s.size bits.toNat)
      else throw (.typeMismatch s'.keyword s.keyword)
    | t => t.refuse s.keyword
  | .bytes data, codec =>
    match set.target codec with
    | .plain (.prim .bytes) => do
      Encoder.emitCount data.length
      Encoder.emit data
    | t => t.refuse "bytes"
  | .string text, codec =>
    match set.target codec with
    | .plain (.prim .string) => do
      Encoder.emitCount (Text.utf8 text).length
      Encoder.emit (Text.utf8 text)
    | t => t.refuse "string"
  | .option tag inner, codec =>
    match set.target codec with
    | .plain (.option tag' codec') =>
      if tag' = tag then writePayload set tag codec' inner
      else throw (.typeMismatch (Codec.option tag' codec').text tag.key)
    | t => t.refuse tag.key
  | .vec items, codec =>
    match set.target codec with
    | .plain (.vec inner) => do
      if let some error := set.refuseZeroSized inner items.length then throw error
      Encoder.emitCount items.length
      writeItems set inner items
    | t => t.refuse "vec"
  | .array items, codec =>
    match set.target codec with
    | .plain (.array inner length) => do
      if items.length ≠ length then throw (.arrayLength length items.length)
      if let some error := set.refuseZeroSized inner items.length then throw error
      writeItems set inner items
    | t => t.refuse "array"
  | .struct fields, codec =>
    match set.target codec with
    | .layout _ (.struct codecs) => writeFields (fieldWriters set fields) codecs
    | t => t.refuse "struct"
  | .enum variant none, codec =>
    match set.target codec with
    | .layout key (.simpleEnum names) => writeSimple key names variant 0
    | .layout key (.complexEnum variants) => writeComplex key variants variant none
    | t => t.refuse "enum"
  | .enum variant (some fields), codec =>
    match set.target codec with
    | .layout key (.simpleEnum names) => writeSimple key names variant fields.length
    | .layout key (.complexEnum variants) =>
      writeComplex key variants variant (some (fieldWriters set fields))
    | t => t.refuse "enum"

/-- The tag of an optional value, and the value if there is one. -/
def writePayload (set : LayoutSet) (tag : OptionTag) (codec : Codec) : Option Value → Encoder
  | none => Encoder.emit (Bytes.leBytes tag.size 0)
  | some inner => do
    Encoder.emit (Bytes.leBytes tag.size 1)
    inner.write set codec

def writeItems (set : LayoutSet) (codec : Codec) : List Value → Encoder
  | [] => return ()
  | item :: rest => do
    item.write set codec
    writeItems set codec rest

def fieldWriters (set : LayoutSet) : List (String × Value) → FieldWriters
  | [] => []
  | (name, value) :: rest => (name, value.write set) :: fieldWriters set rest

end

/-- The bytes that an encoder writes. -/
def Encoder.bytes (encoder : Encoder) : Except CodecError (List UInt8) :=
  match encoder.run #[] with
  | (.ok (), buffer) => .ok buffer.toList
  | (.error error, _) => .error error

namespace LayoutSet

def encodeInto (set : LayoutSet) (codec : Codec) (value : Value) : Encoder :=
  value.write set codec

def encode (set : LayoutSet) (codec : Codec) (value : Value) : Except CodecError (List UInt8) :=
  (set.encodeInto codec value).bytes

/-- Write fields in the order of their codecs. -/
def encodeFields (set : LayoutSet) (codecs : List FieldCodec) (values : List (String × Value)) :
    Encoder :=
  writeFields (fieldWriters set values) codecs

/-- A discriminator and the value behind it. -/
def encodePrefixed (set : LayoutSet) (d : Discriminator) (codec : Codec) (value : Value) :
    Except CodecError (List UInt8) :=
  Encoder.bytes do
    Encoder.emit d.toList
    set.encodeInto codec value

end LayoutSet

end WireSchema
