import WireSchema.Codec.DerivationError
import WireSchema.Codec.Value
import WireSchema.Decimal.Literal
import WireSchema.Json.Reader
import WireSchema.Schema.Document
import WireSchema.Text.Utf8
import WireSchema.Unicode.Ranges

/-!
# Values of constants

The text of a constant is read by its type. Numbers may contain underscores
anywhere and end in the name of their type. A text may be quoted or not. Bytes
are an array of numbers, or a text behind the letter `b`.
-/

namespace WireSchema.Program

set_option autoImplicit false

open Schema

/-- A text without `ending`, if it ends so. -/
def dropEnding (ending text : List Char) : List Char :=
  if ending.isSuffixOf text then text.take (text.length - ending.length) else text

/-- A number without its suffix and its underscores. -/
def bareNumber (s : Scalar) (raw : List Char) : List Char :=
  (dropEnding s.keyword.toList raw).filter (· ≠ '_')

/-- A text in quotes is read as in JSON, any other stands for itself. -/
def unquote? (raw : List Char) : Option String :=
  match raw with
  | '"' :: _ =>
    match Json.ofText (String.ofList raw) with
    | .ok (.str text) => some text
    | _ => none
  | raw => some (String.ofList raw)

def bytes? (raw : List Char) : Option (List UInt8) :=
  match raw with
  | 'b' :: rest => (unquote? rest).map Text.utf8
  | raw =>
    match Json.ofText (String.ofList raw) with
    | .ok json => (ValueReader.list ValueReader.byte json).toOption
    | .error _ => none

/-- A scalar from its text. -/
def scalar? (s : Scalar) (raw : List Char) : Option Value :=
  let unsigned := (Decimal.natural? (Nat.pow 2 (8 * s.size)) (bareNumber s raw)).map (Value.ofNat s)
  let signed := (Decimal.integer? (Nat.pow 2 (8 * s.size - 1)) (bareNumber s raw)).map (Value.ofInt s)
  match s with
  | .u8 | .u16 | .u32 | .u64 | .u128 => unsigned
  | .i8 | .i16 | .i32 | .i64 | .i128 => signed
  | .f32 => (Decimal.FloatFormat.single.literal? (bareNumber s raw)).map (Value.ofNat s)
  | .f64 => (Decimal.FloatFormat.double.literal? (bareNumber s raw)).map (Value.ofNat s)
  | .u256 | .i256 => none
  | .pubkey => ((unquote? raw).bind Bytes.key?).map (Value.ofBytes s)

/-- The value of a text of the given type, if it has one. -/
def literal? (ty : Ty) (raw : List Char) : Option Value :=
  match ty with
  | .prim .bool =>
    if raw = "true".toList then some (.bool true)
    else if raw = "false".toList then some (.bool false)
    else none
  | .prim (.scalar s) => scalar? s raw
  | .prim .string => (unquote? raw).map .string
  | .prim .bytes => (bytes? raw).map .bytes
  | .vec (some (.prim (.scalar .u8))) =>
    (bytes? raw).map fun data => .vec (data.map fun b => Value.ofNat .u8 b.toNat)
  | .array (some (.prim (.scalar .u8))) (.value length) => do
    let data ← bytes? raw
    if data.length = length then
      some (.array (data.map fun b => Value.ofNat .u8 b.toNat))
    else none
  | _ => none

/-- The value of a constant. White space around its text does not count. -/
def constantValue (c : Constant) : Except DerivationError Value :=
  match literal? c.ty (Unicode.trim c.value.toList) with
  | some value => .ok value
  | none => .error (.invalidConstant c.name c.value)

end WireSchema.Program
