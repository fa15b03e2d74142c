import WireSchema.Codec.Basic

/-!
# Sizes of encoded values

The exact size of the values of a codec, where they all have one, and the least
size that any of them can have. Both count in 64 bits: an exact size beyond that
counts as none, a least size stays at the largest number. Keys are followed into
their layouts as often as there are layouts; a set in which a type contains
itself directly has no meaningful sizes.
-/

namespace WireSchema

set_option autoImplicit false

open Schema

/-- The number of sizes there are: the first number that needs more than 64 bits. -/
def sizeLimit : Nat := Nat.pow 2 64

def checked (n : Nat) : Option Nat :=
  if n < sizeLimit then some n else none

def saturated (n : Nat) : Nat :=
  min n (sizeLimit - 1)

def Schema.Primitive.fixedSize? : Primitive → Option Nat
  | .bool => some 1
  | .scalar s => some s.size
  | .bytes | .string => none

def Schema.Primitive.minSize : Primitive → Nat
  | .bool => 1
  | .scalar s => s.size
  | .bytes | .string => 4

/-- The exact size by the exact sizes of the layouts. -/
def Codec.fixedSize? (ofKey : String → Option Nat) : Codec → Option Nat
  | .prim p => p.fixedSize?
  | .option _ _ | .vec _ => none
  | .array inner length => do checked ((← inner.fixedSize? ofKey) * length)
  | .defined key => ofKey key

def fieldsFixedSize? (ofKey : String → Option Nat) (fields : List FieldCodec) : Option Nat :=
  fields.foldlM (fun total f => do checked (total + (← f.codec.fixedSize? ofKey))) 0

def VariantCodec.fixedSize? (ofKey : String → Option Nat) (v : VariantCodec) : Option Nat :=
  fieldsFixedSize? ofKey (v.fields.getD [])

/-- An enumeration has one size only if all its variants have the same. -/
def Layout.fixedSize? (ofKey : String → Option Nat) : Layout → Option Nat
  | .struct fields => fieldsFixedSize? ofKey fields
  | .simpleEnum _ => some 1
  | .complexEnum [] => none
  | .complexEnum (first :: rest) => do
    let size ← first.fixedSize? ofKey
    if rest.all fun v => v.fixedSize? ofKey = some size then checked (size + 1) else none
  | .aliasOf codec => codec.fixedSize? ofKey

/-- The least size by the least sizes of the layouts. -/
def Codec.minSize (ofKey : String → Nat) : Codec → Nat
  | .prim p => p.minSize
  | .option tag _ => tag.size
  | .vec _ => 4
  | .array inner length => saturated (inner.minSize ofKey * length)
  | .defined key => ofKey key

def Layout.minSize (ofKey : String → Nat) : Layout → Nat
  | .struct fields => fields.foldl (fun total f => saturated (total + f.codec.minSize ofKey)) 0
  | .simpleEnum _ | .complexEnum _ => 1
  | .aliasOf codec => codec.minSize ofKey

namespace LayoutSet

/-- The exact size of the layout under a key, following keys `fuel` deep. -/
def keyFixedSize? (set : LayoutSet) : Nat → String → Option Nat
  | 0, _ => none
  | fuel + 1, key => do (← set.get? key).fixedSize? (set.keyFixedSize? fuel)

/-- The least size of the layout under a key, following keys `fuel` deep. A key without a layout counts
as one byte, which no decoder gets to use. -/
def keyMinSize (set : LayoutSet) : Nat → String → Nat
  | 0, _ => 0
  | fuel + 1, key =>
    match set.get? key with
    | some layout => layout.minSize (set.keyMinSize fuel)
    | none => 1

/-- The size of every value of a codec, if they have one size. -/
def fixedSize? (set : LayoutSet) (codec : Codec) : Option Nat :=
  codec.fixedSize? (set.keyFixedSize? (set.length + 1))

/-- A number of bytes that no value of a codec stays below. -/
def minSize (set : LayoutSet) (codec : Codec) : Nat :=
  codec.minSize (set.keyMinSize (set.length + 1))

end LayoutSet

end WireSchema
