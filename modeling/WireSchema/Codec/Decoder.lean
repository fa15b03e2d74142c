import WireSchema.Codec.Encoder

/-!
# Reading values

The opposite of writing. A value is read at a level of nesting: the payload of
an optional value, an element, a field and what an alias stands for are one
level deeper, and no value lies deeper than 128. Counts that the rest of the
data cannot hold are refused before any element is read.
-/

namespace WireSchema

set_option autoImplicit false

open Schema

/-- The deepest level of nesting. -/
def maxDepth : Nat := 128

/-- The same decoder `count` times in a row. -/
def Decoder.times {α : Type} (decoder : Decoder α) : Nat → Decoder (List α)
  | 0 => return []
  | count + 1 => do
    let item ← decoder
    return item :: (← times decoder count)

/-- One decoder per field, in order. -/
def readFields (read : Codec → Decoder Value) : List FieldCodec → Decoder (List (String × Value))
  | [] => return []
  | field :: rest => do
    let value ← read field.codec
    return (field.name, value) :: (← readFields read rest)

def Schema.Primitive.read : Primitive → Decoder Value
  | .bool => return .bool (← Reader.bool)
  | .scalar s => return .ofBytes s (← Reader.bytes s.size)
  | .bytes => return .bytes (← Reader.bytes (← Reader.count 1))
  | .string => return .string (← Reader.string)

/-- Read the value of a layout; `read` reads its parts. -/
def Layout.read (read : Codec → Decoder Value) (key : String) : Layout → Decoder Value
  | .struct fields => return .struct (← readFields read fields)
  | .simpleEnum names => do
    let index ← Reader.number 1
    match names[index]? with
    | some name => return .enum name none
    | none => throw (.unknownIndex key index names.length)
  | .complexEnum variants => do
    let index ← Reader.number 1
    match variants[index]? with
    | some ⟨name, none⟩ => return .enum name none
    | some ⟨name, some fields⟩ => return .enum name (some (← readFields read fields))
    | none => throw (.unknownIndex key index variants.length)
  | .aliasOf codec => read codec

namespace LayoutSet

/-- Read a value when `levels` levels of nesting are left. -/
def readAt (set : LayoutSet) : Nat → Codec → Decoder Value
  | 0, _ => throw (.depthLimit maxDepth)
  | levels + 1, codec =>
    match codec with
    | .prim p => p.read
    | .option tag inner => do
      match ← Reader.number tag.size with
      | 0 => return .option tag none
      | 1 => return .option tag (some (← set.readAt levels inner))
      | n => throw (.invalidOptionTag n)
    | .vec inner => do
      let count ← Reader.count (set.minSize inner)
      if let some error := set.refuseZeroSized inner count then throw error
      return .vec (← (set.readAt levels inner).times count)
    | .array inner length => do
      if let some error := set.refuseZeroSized inner length then throw error
      Reader.ensure length (set.minSize inner)
      return .array (← (set.readAt levels inner).times length)
    | .defined key =>
      match set.get? key with
      | some layout => layout.read (set.readAt levels) key
      | none => throw (.missingLayout key)

/-- Read one value and leave the reader behind it. -/
def decodeFrom (set : LayoutSet) (codec : Codec) : Decoder Value :=
  set.readAt (maxDepth + 1) codec

def decodeFields (set : LayoutSet) (codecs : List FieldCodec) : Decoder (List (String × Value)) :=
  readFields (set.readAt (maxDepth + 1)) codecs

end LayoutSet

/-- Refuse bytes that were not read. -/
def Reader.finished : Decoder Unit := do
  let r ← get
  if !r.isEmpty then
    throw (.trailingBytes r.remaining)

namespace LayoutSet

/-- Read a value that takes all of the data. -/
def decode (set : LayoutSet) (codec : Codec) (data : List UInt8) : Except CodecError Value :=
  Prod.fst <$> Decoder.runOn (do
    let value ← set.decodeFrom codec
    Reader.finished
    return value) data

/-- Check the discriminator and read the value behind it. Unless `exact` is set, bytes behind the value
are ignored. -/
def decodePrefixed (set : LayoutSet) (d : Discriminator) (codec : Codec) (data : List UInt8)
    (exact : Bool) : Except CodecError Value :=
  Prod.fst <$> Decoder.runOn (do
    Reader.discriminator d
    let value ← set.decodeFrom codec
    if exact then Reader.finished
    return value) data

end LayoutSet

end WireSchema
