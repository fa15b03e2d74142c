import WireSchema.Schema.Record
import WireSchema.Schema.TyReading

/-!
# Type definitions

A definition names a struct, an enumeration or another type. Fields have names
or only positions; a list without fields counts as one with names.
-/

namespace WireSchema.Schema

set_option autoImplicit false

structure Field where
  name : String
  docs : List String
  ty : Ty
deriving BEq, Repr

inductive Fields where
  | named (fields : List Field)
  | tuple (types : List Ty)
deriving BEq, Repr

/-- A variant without `fields` has no payload; one with an empty list has an empty payload. -/
structure Variant where
  name : String
  fields : Option Fields
deriving BEq, Repr

inductive Body where
  | struct (fields : Option Fields)
  | enum (variants : List Variant)
  | aliasOf (ty : Ty)
deriving BEq, Repr

/-- A generic that a definition declares. -/
inductive Param where
  | type (name : String)
  | const (name : String) (ty : String)
deriving DecidableEq, Repr

inductive Serialization where
  | borsh
  | bytemuck
  | bytemuckUnsafe
  | custom (name : String)
deriving DecidableEq, Repr

structure ReprModifier where
  packed : Bool
  align : Option Nat
deriving DecidableEq, Repr

inductive Representation where
  | rust (modifier : ReprModifier)
  | c (modifier : ReprModifier)
  | transparent
deriving DecidableEq, Repr

structure TypeDef where
  name : String
  docs : List String
  serialization : Serialization
  representation : Option Representation
  params : List Param
  body : Body
deriving BEq, Repr

def Fields.length : Fields → Nat
  | .named fields => fields.length
  | .tuple types => types.length

/-- Every field with its name; the fields of a tuple are called `v0`, `v1` and so on. -/
def Fields.entries : Fields → List (String × Ty)
  | .named fields => fields.map fun f => (f.name, f.ty)
  | .tuple types => types.zipIdx.map fun (ty, i) => (s!"v{i}", ty)

def Param.name : Param → String
  | .type name => name
  | .const name _ => name

/-- Whether a definition is an enumeration with a payload in at least one variant. -/
def Body.isComplexEnum : Body → Bool
  | .enum variants => variants.any fun v => v.fields.isSome
  | _ => false

open ValueReader

def Field.read : ValueReader Field :=
  readRecord "IdlField" 3 fun form =>
    FieldResult.start Field.mk
      |>.and (form.required 0 "name" text)
      |>.and (form.optional 1 "docs" (list text) [])
      |>.and (form.required 2 "type" (ofShape Ty.read))

def expectList (json : Json) : Except ShapeError (List Json) :=
  match json with
  | .arr items => .ok items
  | json => .error (.mismatch "array" (payload json))

/-- Fields have names if the first of them has one, and also if there is none. -/
def Fields.trials (json : Json) : Trials Fields := [
  ("named", do
    match ← expectList json with
    | [] => return .named []
    | first :: rest =>
      match first.get? "name" with
      | none => .error (.missingKey "name" (payload first))
      | some _ => return .named (← (first :: rest).mapM (asShape "IdlField" Field.read))),
  ("tuple", do
    match ← expectList json with
    | [] => return .tuple []
    | first :: rest =>
      match first.get? "name" with
      | some _ => .error (.mismatch "unnamed field types" (payload json))
      | none => return .tuple (← (first :: rest).mapM Ty.read))]

def Fields.read (json : Json) : Except ShapeError Fields :=
  firstMatch "IdlDefinedFields" json (trials json)

def Variant.read : ValueReader Variant :=
  readRecord "IdlEnumVariant" 2 fun form =>
    FieldResult.start Variant.mk
      |>.and (form.required 0 "name" text)
      |>.and (form.optional 1 "fields" (nullable (ofShape Fields.read)) none)

def Body.trials (json : Json) : Trials Body := [
  ("struct", do
    expectKind json "struct"
    match json.get? "fields" with
    | none | some .null => return .struct none
    | some fields => return .struct (some (← Fields.read fields))),
  ("enum", do
    expectKind json "enum"
    let part ← requireKey json "variants"
    return .enum (← asShape "IdlEnumVariant list" (list Variant.read) part.val)),
  ("type", do
    expectKind json "type"
    let part ← requireKey json "alias"
    return .aliasOf (← Ty.read part.val))]

def Body.read (json : Json) : Except ShapeError Body :=
  firstMatch "IdlTypeDefTy" json (trials json)

def Param.trials (json : Json) : Trials Param := [
  ("type", do
    expectKind json "type"
    return .type (← requireText json "name")),
  ("const", do
    expectKind json "const"
    let name ← requireText json "name"
    return .const name (← requireText json "type"))]

def Param.read (json : Json) : Except ShapeError Param :=
  firstMatch "IdlTypeDefGeneric" json (trials json)

def Serialization.trials (json : Json) : Trials Serialization := [
  ("borsh", (fun () => .borsh) <$> expectWord json "borsh"),
  ("bytemuck", (fun () => .bytemuck) <$> expectWord json "bytemuck"),
  ("bytemuckunsafe", (fun () => .bytemuckUnsafe) <$> expectWord json "bytemuckunsafe"),
  ("custom", .custom <$> requireText json "custom")]

def Serialization.read (json : Json) : Except ShapeError Serialization :=
  firstMatch "IdlSerialization" json (trials json)

def ReprModifier.read : ValueReader ReprModifier :=
  readRecord "IdlReprModifier" 2 fun form =>
    FieldResult.start ReprModifier.mk
      |>.and (form.optional 0 "packed" bool false)
      |>.and (form.optional 1 "align" (nullable (natural "usize" (Nat.pow 2 64))) none)

def Representation.trials (json : Json) : Trials Representation := [
  ("rust", do
    expectKind json "rust"
    return .rust (← asShape "IdlReprModifier" ReprModifier.read json)),
  ("c", do
    expectKind json "c"
    return .c (← asShape "IdlReprModifier" ReprModifier.read json)),
  ("transparent", (fun () => .transparent) <$> expectKind json "transparent")]

def Representation.read (json : Json) : Except ShapeError Representation :=
  firstMatch "IdlRepr" json (trials json)

def TypeDef.read : ValueReader TypeDef :=
  readRecord "IdlTypeDef" 6 fun form =>
    FieldResult.start TypeDef.mk
      |>.and (form.required 0 "name" text)
      |>.and (form.optional 1 "docs" (list text) [])
      |>.and (form.optional 2 "serialization" (ofShape Serialization.read) .borsh)
      |>.and (form.optional 3 "repr" (nullable (ofShape Representation.read)) none)
      |>.and (form.optional 4 "generics" (list (ofShape Param.read)) [])
      |>.and (form.required 5 "type" (ofShape Body.read))

end WireSchema.Schema
