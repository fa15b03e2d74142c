import WireSchema.Codec.Encoder

/-!
# Normal forms of values

What is written under a codec may hold more than the codec names: fields in any
order, fields twice, fields that no layout has, an empty payload given or left
out. The normal form of a value is what is left when all that is settled by the
layouts. Its depth counts the levels of nesting that reading it takes. Neither
says anything about values that the codec does not take.
-/

namespace WireSchema

set_option autoImplicit false

open Schema

namespace LayoutSet

/-- How many aliases lead from a codec to its target. -/
def aliasStepsWithin (set : LayoutSet) : Nat → Codec → Nat
  | fuel + 1, .defined key =>
    match set.get? key with
    | some (.aliasOf inner) => set.aliasStepsWithin fuel inner + 1
    | _ => 0
  | _, _ => 0

def aliasSteps (set : LayoutSet) (codec : Codec) : Nat :=
  set.aliasStepsWithin (set.length + 1) codec

end LayoutSet

/-- For each field of a layout the first value of its name, under the codec of the field. -/
def pickFields (values : List (String × (Codec → Value))) : List FieldCodec → List (String × Value)
  | [] => []
  | field :: rest =>
    match values.lookup field.name with
    | some value => (field.name, value field.codec) :: pickFields values rest
    | none => pickFields values rest

/-- The payload codecs of the first variant with a name. -/
def payloadCodecs (variants : List VariantCodec) (variant : String) : Option (List FieldCodec) :=
  (variants.find? (·.name = variant)).bind VariantCodec.fields

mutual

/-- What a value is read back as. A payload is there exactly if the layout has one. -/
def Value.normal (set : LayoutSet) : Value → Codec → Value
  | .option tag inner, codec =>
    match set.target codec with
    | .plain (.option _ inside) => .option tag (normalPayload set inside inner)
    | _ => .option tag inner
  | .vec items, codec =>
    match set.target codec with
    | .plain (.vec inside) => .vec (normalItems set inside items)
    | _ => .vec items
  | .array items, codec =>
    match set.target codec with
    | .plain (.array inside _) => .array (normalItems set inside items)
    | _ => .array items
  | .struct fields, codec =>
    match set.target codec with
    | .layout _ (.struct codecs) => .struct (pickFields (normalFields set fields) codecs)
    | _ => .struct fields
  | .enum variant none, codec =>
    match set.target codec with
    | .layout _ (.complexEnum variants) =>
      .enum variant ((payloadCodecs variants variant).map (pickFields []))
    | _ => .enum variant none
  | .enum variant (some fields), codec =>
    match set.target codec with
    | .layout _ (.complexEnum variants) =>
      .enum variant ((payloadCodecs variants variant).map (pickFields (normalFields set fields)))
    | _ => .enum variant none
  | .bool b, _ => .bool b
  | .scalar s bits, _ => .scalar s bits
  | .bytes data, _ => .bytes data
  | .string text, _ => .string text

def normalPayload (set : LayoutSet) (codec : Codec) : Option Value → Option Value
  | none => none
  | some inner => some (inner.normal set codec)

def normalItems (set : LayoutSet) (codec : Codec) : List Value → List Value
  | [] => []
  | item :: rest => item.normal set codec :: normalItems set codec rest

def normalFields (set : LayoutSet) : List (String × Value) → List (String × (Codec → Value))
  | [] => []
  | (name, value) :: rest => (name, value.normal set) :: normalFields set rest

end

mutual

/-- The level of the deepest part of a value in normal form, where the value itself is at level 0. The
payload of an optional value, an element and a field lie one level deeper, and so does what an
alias stands for. -/
def Value.depth (set : LayoutSet) : Value → Codec → Nat
  | .option _ (some inner), codec =>
    match set.target codec with
    | .plain (.option _ inside) => set.aliasSteps codec + (inner.depth set inside + 1)
    | _ => set.aliasSteps codec
  | .vec items, codec =>
    match set.target codec with
    | .plain (.vec inside) => set.aliasSteps codec + itemsDepth set inside items
    | _ => set.aliasSteps codec
  | .array items, codec =>
    match set.target codec with
    | .plain (.array inside _) => set.aliasSteps codec + itemsDepth set inside items
    | _ => set.aliasSteps codec
  | .struct fields, codec =>
    match set.target codec with
    | .layout _ (.struct codecs) => set.aliasSteps codec + fieldsDepth set codecs fields
    | _ => set.aliasSteps codec
  | .enum variant (some fields), codec =>
    match set.target codec with
    | .layout _ (.complexEnum variants) =>
      set.aliasSteps codec + fieldsDepth set ((payloadCodecs variants variant).getD []) fields
    | _ => set.aliasSteps codec
  | _, codec => set.aliasSteps codec

def itemsDepth (set : LayoutSet) (codec : Codec) : List Value → Nat
  | [] => 0
  | item :: rest => max (item.depth set codec + 1) (itemsDepth set codec rest)

/-- Fields in normal form stand in the order of their codecs. -/
def fieldsDepth (set : LayoutSet) (codecs : List FieldCodec) : List (String × Value) → Nat
  | [] => 0
  | (_, value) :: rest =>
    match codecs with
    | [] => 0
    | field :: codecs => max (value.depth set field.codec + 1) (fieldsDepth set codecs rest)

end

theorem Value.normal_enum (set : LayoutSet) (variant : String)
    (payload : Option (List (String × Value))) (codec : Codec) :
    (Value.enum variant payload).normal set codec
      = match set.target codec with
        | .layout _ (.complexEnum variants) =>
          .enum variant ((payloadCodecs variants variant).map
            (pickFields ((payload.map (normalFields set)).getD [])))
        | _ => .enum variant none := by
  cases payload <;> rw [Value.normal] <;> rfl

@[simp] theorem lookup_normalFields (set : LayoutSet) (fields : List (String × Value)) (name : String) :
    (normalFields set fields).lookup name = (fields.lookup name).map (Value.normal set) := by
  induction fields with
  | nil => rfl
  | cons field rest ih =>
    obtain ⟨n, v⟩ := field
    simp only [normalFields, List.lookup_cons, ih]
    cases name == n <;> rfl

end WireSchema
