import WireSchema.Bytes.Base58
import WireSchema.Bytes.Base64
import WireSchema.Bytes.Hex
import WireSchema.Bytes.LittleEndian
import WireSchema.Decimal.Binary
import WireSchema.Json.Basic
import WireSchema.Schema.Ty

/-!
# Values

What codecs write and read. A scalar holds the bits of its width, whatever they
mean; the fields of a struct or of a variant come in some order and may repeat.
-/

namespace WireSchema

set_option autoImplicit false

open Schema

inductive Value where
  | bool (b : Bool)
  | scalar (s : Scalar) (bits : BitVec (8 * s.size))
  | bytes (data : List UInt8)
  | string (text : String)
  | option (tag : OptionTag) (inner : Option Value)
  | vec (items : List Value)
  | array (items : List Value)
  | struct (fields : List (String × Value))
  | enum (variant : String) (fields : Option (List (String × Value)))

instance : Inhabited Value := ⟨.bool false⟩

namespace Value

/-- The scalar with the given number, which is reduced to its width. -/
def ofNat (s : Scalar) (n : Nat) : Value :=
  .scalar s (BitVec.ofNat _ n)

/-- The scalar with the given number in two's complement, reduced to its width. -/
def ofInt (s : Scalar) (n : Int) : Value :=
  .scalar s (BitVec.ofInt _ n)

/-- The scalar with the given bytes, least significant first. -/
def ofBytes (s : Scalar) (bytes : List UInt8) : Value :=
  ofNat s (Bytes.leNat bytes)

/-- What messages call a value. -/
def kind : Value → String
  | .bool _ => "bool"
  | .scalar s _ => s.keyword
  | .bytes _ => "bytes"
  | .string _ => "string"
  | .option tag _ => tag.key
  | .vec _ => "vec"
  | .array _ => "array"
  | .struct _ => "struct"
  | .enum _ _ => "enum"

/-- The first field with a name, of a struct or of a variant. -/
def field? (value : Value) (name : String) : Option Value :=
  match value with
  | .struct fields => fields.lookup name
  | .enum _ (some fields) => fields.lookup name
  | _ => none

def floatJson (bits : Nat) : Json :=
  if Decimal.isFinite bits then .float (UInt64.ofNat bits) else .null

/-- A scalar in JSON. Integers of more than 64 bits are texts, the widest of them in hexadecimal. -/
def scalarJson (s : Scalar) (bits : BitVec (8 * s.size)) : Json :=
  match s with
  | .u8 | .u16 | .u32 | .u64 => .int bits.toNat
  | .i8 | .i16 | .i32 | .i64 => .int bits.toInt
  | .f32 => floatJson (Decimal.widen bits.toNat)
  | .f64 => floatJson bits.toNat
  | .u128 => .str (toString bits.toNat)
  | .i128 => .str (toString bits.toInt)
  | .u256 | .i256 => .str ("0x" ++ Bytes.hex (Bytes.leBytes s.size bits.toNat).reverse)
  | .pubkey => .str (Bytes.base58 (Bytes.leBytes s.size bits.toNat))

mutual

/-- A value in JSON. Of fields with one name the last is shown. -/
def toJson : Value → Json
  | .bool b => .bool b
  | .scalar s bits => scalarJson s bits
  | .bytes data => .str (Bytes.base64 data)
  | .string text => .str text
  | .option _ none => .null
  | .option _ (some inner) => inner.toJson
  | .vec items => .arr (itemsJson items)
  | .array items => .arr (itemsJson items)
  | .struct fields => Json.ofEntries (fieldsJson fields)
  | .enum variant none => .str variant
  | .enum variant (some fields) => .obj [(variant, Json.ofEntries (fieldsJson fields))]

def itemsJson : List Value → List Json
  | [] => []
  | item :: rest => item.toJson :: itemsJson rest

def fieldsJson : List (String × Value) → List (String × Json)
  | [] => []
  | (name, value) :: rest => (name, value.toJson) :: fieldsJson rest

end

/-- The numbers of two floating point patterns are equal; what is no number equals nothing. -/
def sameFloat (f : Decimal.FloatFormat) (a b : Nat) : Bool :=
  let m := a % f.signBit
  let n := b % f.signBit
  m ≤ f.infinity && n ≤ f.infinity && (a == b || (m == 0 && n == 0))

def sameScalar (s : Scalar) (a b : Nat) : Bool :=
  match s with
  | .f32 => sameFloat .single a b
  | .f64 => sameFloat .double a b
  | _ => a == b

mutual

/-- Equality of values, except that floating point numbers are compared as numbers. -/
def same : Value → Value → Bool
  | .bool a, .bool b => a == b
  | .scalar s a, .scalar t b => s == t && sameScalar s a.toNat b.toNat
  | .bytes a, .bytes b => a == b
  | .string a, .string b => a == b
  | .option tag none, .option other none => tag == other
  | .option tag (some a), .option other (some b) => tag == other && a.same b
  | .vec a, .vec b => sameItems a b
  | .array a, .array b => sameItems a b
  | .struct a, .struct b => sameFields a b
  | .enum a none, .enum b none => a == b
  | .enum a (some x), .enum b (some y) => a == b && sameFields x y
  | _, _ => false

def sameItems : List Value → List Value → Bool
  | [], [] => true
  | a :: x, b :: y => a.same b && sameItems x y
  | _, _ => false

def sameFields : List (String × Value) → List (String × Value) → Bool
  | [], [] => true
  | (m, a) :: x, (n, b) :: y => m == n && a.same b && sameFields x y
  | _, _ => false

end

end Value

end WireSchema
