import WireSchema.Codec.Derivation

/-!
# What references stand for

A derivation answers with codecs and keeps layouts on the side. Here is the
same without a state: the instance that a reference names, the codec of a type,
the layout of an instance. Nothing is shared and nothing is limited here, so a
type that a derivation gives up on may well have a codec.
-/

namespace WireSchema

set_option autoImplicit false

open Schema

/-- What a generic of a definition is bound to. -/
inductive Argument where
  | type (codec : Codec)
  | const (text : String)
deriving DecidableEq, Repr

def Argument.text : Argument → String
  | .type codec => codec.text
  | .const text => text

/-- A definition with arguments for its generics. -/
structure Instance where
  name : String
  args : List Argument
deriving DecidableEq, Repr

def Instance.key (i : Instance) : String :=
  instanceKey i.name (i.args.map Argument.text)

/-- Put arguments in front of what is bound already. -/
def Bindings.bind (bindings : Bindings) : List Param → List Argument → Bindings
  | .type param :: params, .type codec :: args =>
    Bindings.bind { bindings with types := (param, codec) :: bindings.types } params args
  | .const param _ :: params, .const text :: args =>
    Bindings.bind { bindings with consts := (param, text) :: bindings.consts } params args
  | _, _ => bindings

def Schema.ArrayLength.resolve? (env : Bindings) : ArrayLength → Option Nat
  | .value n => some n
  | .generic name => (env.consts.lookup name).bind fun text => Decimal.natural? sizeLimit text.toList

mutual

/-- The codec of a type, if all it refers to exists and fits. -/
def Schema.Ty.resolve (registry : Registry) (env : Bindings) : Ty → Option Codec
  | .prim p => some (.prim p)
  | .option tag inner => (resolveSlot registry env inner).map (.option tag)
  | .vec inner => (resolveSlot registry env inner).map .vec
  | .array inner length => do
    let n ← length.resolve? env
    return .array (← resolveSlot registry env inner) n
  | .defined name args => do
    let d ← registry.get? name
    if d.params.length = args.length then
      return .defined (Instance.key ⟨name, ← resolveArgs registry env d.params args⟩)
    else none
  | .generic name => env.types.lookup name

def resolveSlot (registry : Registry) (env : Bindings) : Option Ty → Option Codec
  | none => none
  | some ty => ty.resolve registry env

def resolveArgs (registry : Registry) (env : Bindings) (params : List Param) :
    List GenericArg → Option (List Argument)
  | [] => some []
  | .type ty :: args =>
    match params with
    | [] => some []
    | .type _ :: params => do
      let codec ← ty.resolve registry env
      return .type codec :: (← resolveArgs registry env params args)
    | .const _ _ :: _ => none
  | .const value :: args =>
    match params with
    | [] => some []
    | .const _ _ :: params => do
      return .const ((env.consts.lookup value).getD value) :: (← resolveArgs registry env params args)
    | .type _ :: _ => none

end

mutual

/-- A type with all types inside of it, arguments included. -/
def Schema.Ty.within : Ty → List Ty
  | .option tag inner => .option tag inner :: withinSlot inner
  | .vec inner => .vec inner :: withinSlot inner
  | .array inner length => .array inner length :: withinSlot inner
  | .defined name args => .defined name args :: withinArgs args
  | .prim p => [.prim p]
  | .generic name => [.generic name]

def withinSlot : Option Ty → List Ty
  | none => []
  | some ty => ty.within

def withinArgs : List GenericArg → List Ty
  | [] => []
  | .type ty :: args => ty.within ++ withinArgs args
  | .const _ :: args => withinArgs args

end

def Schema.Body.types : Body → List Ty
  | .struct none => []
  | .struct (some fields) => fields.entries.map Prod.snd
  | .enum variants => variants.flatMap fun v => (v.fields.elim [] Fields.entries).map Prod.snd
  | .aliasOf ty => [ty]

def fieldCodecs? (codecOf : Ty → Option Codec) : List (String × Ty) → Option (List FieldCodec)
  | [] => some []
  | (name, ty) :: rest => do
    let codec ← codecOf ty
    return ⟨name, codec⟩ :: (← fieldCodecs? codecOf rest)

def variantCodecs? (codecOf : Ty → Option Codec) : List Variant → Option (List VariantCodec)
  | [] => some []
  | ⟨name, none⟩ :: rest => do return ⟨name, none⟩ :: (← variantCodecs? codecOf rest)
  | ⟨name, some fields⟩ :: rest => do
    let codecs ← fieldCodecs? codecOf fields.entries
    return ⟨name, some codecs⟩ :: (← variantCodecs? codecOf rest)

def Schema.Body.layout? (codecOf : Ty → Option Codec) : Body → Option Layout
  | .struct none => some (.struct [])
  | .struct (some fields) => (fieldCodecs? codecOf fields.entries).map .struct
  | .enum variants =>
    if 256 < variants.length then none
    else if (Body.enum variants).isComplexEnum then (variantCodecs? codecOf variants).map .complexEnum
    else some (.simpleEnum (variants.map Variant.name))
  | .aliasOf ty => (codecOf ty).map .aliasOf

def Schema.TypeDef.layout? (d : TypeDef) (codecOf : Ty → Option Codec) : Option Layout :=
  match d.serialization with
  | .custom _ => none
  | _ => d.body.layout? codecOf

namespace Registry

variable (registry : Registry)

/-- The instance that a reference names. -/
def instance? (env : Bindings) : Ty → Option Instance
  | .defined name args => do
    let d ← registry.get? name
    if d.params.length = args.length then
      return ⟨name, ← resolveArgs registry env d.params args⟩
    else none
  | _ => none

/-- What the generics of the definition stand for in an instance. -/
def bindings (i : Instance) : Bindings :=
  match registry.get? i.name with
  | some d => Bindings.none.bind d.params i.args
  | none => .none

def types (i : Instance) : List Ty :=
  match registry.get? i.name with
  | some d => d.body.types
  | none => []

def layout? (i : Instance) : Option Layout := do
  let d ← registry.get? i.name
  d.layout? (Ty.resolve registry (registry.bindings i))

/-- The instances that a type names, inside of it and in arguments too. -/
def instances (env : Bindings) (ty : Ty) : List Instance :=
  ty.within.filterMap (registry.instance? env)

/-- The instances that the definition of an instance names. -/
def mentioned (i : Instance) : List Instance :=
  (registry.types i).flatMap (registry.instances (registry.bindings i))

/-- The types that are come to from some types outside of definitions, each with what the generics
stand for there: the parts of types, and the types in the definitions of what they name. -/
inductive Reaches (roots : List Ty) : Bindings → Ty → Prop
  | root {ty : Ty} : ty ∈ roots → Reaches roots .none ty
  | part {env : Bindings} {ty part : Ty} : Reaches roots env ty → part ∈ ty.within →
      Reaches roots env part
  | body {env : Bindings} {ref ty : Ty} {i : Instance} : Reaches roots env ref →
      registry.instance? env ref = some i → ty ∈ registry.types i →
      Reaches roots (registry.bindings i) ty

end Registry

end WireSchema
