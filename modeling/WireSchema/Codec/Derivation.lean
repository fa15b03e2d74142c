import WireSchema.Codec.DerivationError
import WireSchema.Codec.Recursion
import WireSchema.Codec.Size
import WireSchema.Decimal.Integer
import WireSchema.Schema.Definition

/-!
# From definitions to layouts

A reference to a definition becomes a key: the name, with the arguments for the
generics if there are any. The layout under a key is derived when the key is
met first; while that is under way the key itself stands for it. At most 32
instantiations of one definition may be under way at a time, which also bounds
the nesting of derivations as a whole.

A failed derivation leaves the layouts that were finished before it failed.
-/

namespace WireSchema

set_option autoImplicit false

open Schema

/-- Type definitions by name, in the order of the document. -/
structure Registry where
  defs : List TypeDef

namespace Registry

/-- Of definitions with one name the first counts. -/
def ofTypes (types : List TypeDef) : Registry :=
  ⟨(types.foldl (fun defs d => if defs.any (·.name = d.name) then defs else d :: defs) []).reverse⟩

def get? (registry : Registry) (name : String) : Option TypeDef :=
  registry.defs.find? (·.name = name)

end Registry

/-- What the generics of a definition stand for; of two with one name the first in the list counts. -/
structure Bindings where
  types : List (String × Codec)
  consts : List (String × String)
deriving DecidableEq, Repr

def Bindings.none : Bindings := ⟨[], []⟩

structure DerivationState where
  layouts : LayoutSet
  /-- The name and the key of every layout that is being derived. -/
  underWay : List (String × String)
  /-- How many layouts of each definition are being derived. -/
  expanding : List (String × Nat)
deriving DecidableEq, Repr

def DerivationState.initial : DerivationState := ⟨.empty, [], []⟩

abbrev Derivation (α : Type) : Type := ExceptT DerivationError (StateM DerivationState) α

/-- The outcome of a derivation, be it an error; what it did to the state stays. -/
def Derivation.outcome {α : Type} (derivation : Derivation α) :
    Derivation (Except DerivationError α) :=
  ExceptT.lift derivation.run

namespace DerivationState

/-- How many layouts of a definition are being derived. -/
def expansions (s : DerivationState) (name : String) : Nat :=
  (s.expanding.lookup name).getD 0

def setExpansions (s : DerivationState) (name : String) (n : Nat) : DerivationState :=
  { s with expanding := Keyed.insert name n s.expanding }

def isKnown (s : DerivationState) (key : String) : Bool :=
  s.layouts.contains key || s.underWay.any (·.2 = key)

def start (s : DerivationState) (name key : String) : DerivationState :=
  { s.setExpansions name (s.expansions name + 1) with underWay := (name, key) :: s.underWay }

def finish (s : DerivationState) (name key : String) : DerivationState :=
  { s.setExpansions name (s.expansions name - 1) with underWay := s.underWay.erase (name, key) }

section Fields

variable (s : DerivationState) (name key : String)

@[simp] theorem layouts_start : (s.start name key).layouts = s.layouts := rfl

@[simp] theorem underWay_start : (s.start name key).underWay = (name, key) :: s.underWay := rfl

@[simp] theorem layouts_finish : (s.finish name key).layouts = s.layouts := rfl

@[simp] theorem underWay_finish : (s.finish name key).underWay = s.underWay.erase (name, key) := rfl

end Fields

end DerivationState

/-- How many layouts of one definition may be under way at a time. -/
def maxExpansions : Nat := 32

/-- Derives the layout of a definition whose generics are bound, to be kept under a key. -/
abbrev LayoutDeriver : Type := TypeDef → Bindings → String → Derivation Layout

/-- The name of a definition with the texts of its arguments. -/
def instanceKey (name : String) (labels : List String) : String :=
  if labels = [] then name else name ++ "<" ++ ", ".intercalate labels ++ ">"

/-- The key of a definition with bound generics; its layout is derived unless it is there already or
under way. -/
def instantiate (derive : LayoutDeriver) (d : TypeDef) (bindings : Bindings) (labels : List String) :
    Derivation Codec := do
  let key := instanceKey d.name labels
  if (← get).isKnown key then
    return .defined key
  if maxExpansions ≤ (← get).expansions d.name then
    throw (.genericExpansion d.name maxExpansions)
  modify (·.start d.name key)
  let outcome ← Derivation.outcome (derive d bindings key)
  modify (·.finish d.name key)
  match outcome with
  | .ok layout =>
    modify fun s => { s with layouts := s.layouts.insert key layout }
    return .defined key
  | .error error => throw error

/-- The length of an array; a generic length must be bound to the text of a number. -/
def Schema.ArrayLength.resolve (env : Bindings) (path : String) : ArrayLength → Derivation Nat
  | .value n => return n
  | .generic name =>
    match (env.consts.lookup name).bind fun text => Decimal.natural? sizeLimit text.toList with
    | some n => return n
    | none => throw (.genericArrayLength name path)

mutual

/-- The codec of a type in which the generics of `env` may occur. `path` is where errors say it stands. -/
def Schema.Ty.derive (registry : Registry) (derive : LayoutDeriver) (env : Bindings) (path : String) :
    Ty → Derivation Codec
  | .prim p => return .prim p
  | .option tag inner => return .option tag (← deriveSlot registry derive env path inner)
  | .vec inner => return .vec (← deriveSlot registry derive env path inner)
  | .array inner length => do
    let n ← length.resolve env path
    return .array (← deriveSlot registry derive env path inner) n
  | .defined name args =>
    match registry.get? name with
    | none => throw (.undefinedType name path)
    | some d => do
      if d.params.length ≠ args.length then
        throw (.genericArity name d.params.length args.length)
      let (bindings, labels) ← bindArgs registry derive env path name .none [] d.params args
      instantiate derive d bindings labels
  | .generic name =>
    match env.types.lookup name with
    | some codec => return codec
    | none => throw (.unboundGeneric name path)

def deriveSlot (registry : Registry) (derive : LayoutDeriver) (env : Bindings) (path : String) :
    Option Ty → Derivation Codec
  | none => throw (.unresolvedType path)
  | some ty => ty.derive registry derive env path

/-- Bind parameters to arguments, and give the text of each argument. The text of a constant may name a
constant of `env`. -/
def bindArgs (registry : Registry) (derive : LayoutDeriver) (env : Bindings) (path name : String)
    (bindings : Bindings) (labels : List String) (params : List Param) :
    List GenericArg → Derivation (Bindings × List String)
  | [] => return (bindings, labels)
  | .type ty :: args =>
    match params with
    | [] => return (bindings, labels)
    | .type param :: params => do
      let codec ← ty.derive registry derive env path
      bindArgs registry derive env path name
        { bindings with types := (param, codec) :: bindings.types } (labels ++ [codec.text]) params args
    | .const param _ :: _ => throw (.genericMismatch name param)
  | .const value :: args =>
    match params with
    | [] => return (bindings, labels)
    | .const param _ :: params =>
      let value := (env.consts.lookup value).getD value
      bindArgs registry derive env path name
        { bindings with consts := (param, value) :: bindings.consts } (labels ++ [value]) params args
    | .type param :: _ => throw (.genericMismatch name param)

end

/-- The codecs of fields in order; the name of a field is put behind the path. -/
def deriveFields (codecOf : String → Ty → Derivation Codec) (path : String) :
    List (String × Ty) → Derivation (List FieldCodec)
  | [] => return []
  | (name, ty) :: rest => do
    let codec ← codecOf s!"{path}.{name}" ty
    return ⟨name, codec⟩ :: (← deriveFields codecOf path rest)

def deriveVariants (codecOf : String → Ty → Derivation Codec) (key : String) :
    List Variant → Derivation (List VariantCodec)
  | [] => return []
  | ⟨name, none⟩ :: rest => return ⟨name, none⟩ :: (← deriveVariants codecOf key rest)
  | ⟨name, some fields⟩ :: rest => do
    let codecs ← deriveFields codecOf s!"{key}::{name}" fields.entries
    return ⟨name, some codecs⟩ :: (← deriveVariants codecOf key rest)

/-- The layout of a definition; `codecOf` gives the codec of a type that stands at a path in it. -/
def Schema.TypeDef.layout (d : TypeDef) (codecOf : String → Ty → Derivation Codec) (key : String) :
    Derivation Layout := do
  if let .custom serialization := d.serialization then
    throw (.unsupportedSerialization d.name serialization)
  match d.body with
  | .struct none => return .struct []
  | .struct (some fields) => return .struct (← deriveFields codecOf key fields.entries)
  | .enum variants =>
    if 256 < variants.length then
      throw (.tooManyVariants d.name variants.length)
    if d.body.isComplexEnum then
      return .complexEnum (← deriveVariants codecOf key variants)
    else
      return .simpleEnum (variants.map Variant.name)
  | .aliasOf ty => return .aliasOf (← codecOf key ty)

namespace Registry

/-- Derive a layout when at most `fuel` layouts may be under way inside of each other. -/
def layoutWithin (registry : Registry) : Nat → LayoutDeriver
  | 0, d, _, _ => throw (.genericExpansion d.name maxExpansions)
  | fuel + 1, d, env, key =>
    d.layout (fun path ty => ty.derive registry (registry.layoutWithin fuel) env path) key

/-- No more layouts than this can be under way inside of each other. -/
def nesting (registry : Registry) : Nat :=
  maxExpansions * registry.defs.length + 1

def deriveLayout (registry : Registry) : LayoutDeriver :=
  registry.layoutWithin registry.nesting

/-- The codec of a type outside of any definition, where no generics are bound. -/
def codec (registry : Registry) (ty : Option Ty) (path : String) : Derivation Codec :=
  deriveSlot registry registry.deriveLayout .none path ty

/-- The codecs of fields outside of any definition. -/
def fields (registry : Registry) (fields : List Field) (path : String) :
    Derivation (List FieldCodec) :=
  deriveFields (fun path ty => registry.codec (some ty) path) path
    (Fields.named fields).entries

/-- Derive every definition without generics. -/
def definitions (registry : Registry) : Derivation Unit :=
  (registry.defs.filter (·.params.isEmpty)).forM fun d => do
    let _ ← instantiate registry.deriveLayout d .none []
    return ()

end Registry

/-- The layouts derived so far, unless one of them contains itself directly. -/
def finishedLayouts : Derivation LayoutSet := do
  let layouts := (← get).layouts
  match layouts.selfContaining? with
  | some key => throw (.recursiveType key)
  | none => return layouts

/-- The result of a derivation from the start. -/
def Derivation.result {α : Type} (derivation : Derivation α) : Except DerivationError α :=
  (derivation.run DerivationState.initial).1

/-- The layouts of all definitions without generics and of what they refer to. -/
def Registry.layouts (registry : Registry) : Except DerivationError LayoutSet :=
  Derivation.result do
    registry.definitions
    finishedLayouts

end WireSchema
