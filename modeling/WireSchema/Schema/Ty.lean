/-!
# Type expressions

What a field, an argument or a constant says about its type: a keyword, a
wrapper around another type, a reference to a defined type with arguments for
its generics, or a generic of the enclosing definition. The type inside a
wrapper may be absent where the document holds `null`.
-/

namespace WireSchema.Schema

set_option autoImplicit false

/-- The types of fixed width whose every bit pattern is a value. -/
inductive Scalar where
  | u8 | i8 | u16 | i16 | u32 | i32 | f32 | u64 | i64 | f64 | u128 | i128 | u256 | i256 | pubkey
deriving DecidableEq, Repr

/-- The width in bytes. -/
def Scalar.size : Scalar → Nat
  | .u8 | .i8 => 1
  | .u16 | .i16 => 2
  | .u32 | .i32 | .f32 => 4
  | .u64 | .i64 | .f64 => 8
  | .u128 | .i128 => 16
  | .u256 | .i256 | .pubkey => 32

def Scalar.keyword : Scalar → String
  | .u8 => "u8"
  | .i8 => "i8"
  | .u16 => "u16"
  | .i16 => "i16"
  | .u32 => "u32"
  | .i32 => "i32"
  | .f32 => "f32"
  | .u64 => "u64"
  | .i64 => "i64"
  | .f64 => "f64"
  | .u128 => "u128"
  | .i128 => "i128"
  | .u256 => "u256"
  | .i256 => "i256"
  | .pubkey => "pubkey"

inductive Primitive where
  | bool
  | scalar (s : Scalar)
  | bytes
  | string
deriving DecidableEq, Repr

def Primitive.keyword : Primitive → String
  | .bool => "bool"
  | .scalar s => s.keyword
  | .bytes => "bytes"
  | .string => "string"

/-- Every primitive, in the order in which keywords are tried. -/
def Primitive.all : List Primitive :=
  .bool :: ([.u8, .i8, .u16, .i16, .u32, .i32, .f32, .u64, .i64, .f64, .u128, .i128, .u256,
    .i256].map Primitive.scalar) ++ [.bytes, .string, .scalar .pubkey]

/-- The two forms of an optional value: its tag takes one byte or four. -/
inductive OptionTag where
  | byte
  | word
deriving DecidableEq, Repr

def OptionTag.size : OptionTag → Nat
  | .byte => 1
  | .word => 4

/-- The key of the wrapper in a document. -/
def OptionTag.key : OptionTag → String
  | .byte => "option"
  | .word => "coption"

/-- The name of the wrapper in the text of a type. -/
def OptionTag.label : OptionTag → String
  | .byte => "Option"
  | .word => "COption"

inductive ArrayLength where
  | value (n : Nat)
  | generic (name : String)
deriving DecidableEq, Repr

mutual

inductive Ty where
  | prim (p : Primitive)
  | option (tag : OptionTag) (inner : Option Ty)
  | vec (inner : Option Ty)
  | array (inner : Option Ty) (length : ArrayLength)
  | defined (name : String) (args : List GenericArg)
  | generic (name : String)
deriving BEq, Repr

/-- What is given for one generic of a definition: a type, or the text of a constant. -/
inductive GenericArg where
  | type (ty : Ty)
  | const (value : String)
deriving BEq, Repr

end

instance : Inhabited Ty := ⟨.prim .bool⟩

def ArrayLength.text : ArrayLength → String
  | .value n => toString n
  | .generic name => name

mutual

/-- A type as a reader would write it. -/
def Ty.text : Ty → String
  | .prim p => p.keyword
  | .option tag inner => s!"{tag.label}<{slotText inner}>"
  | .vec inner => s!"Vec<{slotText inner}>"
  | .array inner length => s!"[{slotText inner}; {length.text}]"
  | .defined name [] => name
  | .defined name (arg :: rest) => s!"{name}<{argsText (arg :: rest)}>"
  | .generic name => name

def slotText : Option Ty → String
  | none => "?"
  | some ty => ty.text

def argsText : List GenericArg → String
  | [] => ""
  | [arg] => arg.text
  | arg :: rest => s!"{arg.text}, {argsText rest}"

def GenericArg.text : GenericArg → String
  | .type ty => ty.text
  | .const value => value

end

end WireSchema.Schema
