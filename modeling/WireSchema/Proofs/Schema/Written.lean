import WireSchema.Proofs.Derivation.Parts
import WireSchema.Proofs.Json.Members
import WireSchema.Schema.Definition

/-!
# Type definitions as JSON

Every definition is written in one way, in full or without the members that a
reader takes for granted. What is written is plain JSON as long as lengths fit
64 bits; how it looks as a text is not said.
-/

namespace WireSchema.Schema

set_option autoImplicit false

open Json (ofMembers written orNull)

def ArrayLength.json : ArrayLength → Json
  | .value n => .int n
  | .generic name => ofMembers [("generic", some (.str name))]

section Writers

variable (full : Bool)

mutual

def Ty.json : Ty → Json
  | .prim p => .str p.keyword
  | .option tag inner => ofMembers [(tag.key, some (slotJson inner))]
  | .vec inner => ofMembers [("vec", some (slotJson inner))]
  | .array inner length => ofMembers [("array", some (.arr [slotJson inner, length.json]))]
  | .defined name args => ofMembers [("defined", some (ofMembers
      [("name", some (.str name)), ("generics", written full args.isEmpty (.arr (argsJson args)))]))]
  | .generic name => ofMembers [("generic", some (.str name))]

def slotJson : Option Ty → Json
  | none => .null
  | some ty => ty.json

def argsJson : List GenericArg → List Json
  | [] => []
  | arg :: rest => arg.json :: argsJson rest

def GenericArg.json : GenericArg → Json
  | .type ty => ofMembers [("kind", some (.str "type")), ("type", some ty.json)]
  | .const value => ofMembers [("kind", some (.str "const")), ("value", some (.str value))]

end

def Field.json (f : Field) : Json :=
  ofMembers [("name", some (.str f.name)), ("docs", written full f.docs.isEmpty (.arr (f.docs.map .str))),
    ("type", some (f.ty.json full))]

def Fields.json : Fields → Json
  | .named fields => .arr (fields.map (Field.json full))
  | .tuple types => .arr (types.map (Ty.json full))

def Variant.json (v : Variant) : Json :=
  ofMembers [("name", some (.str v.name)),
    ("fields", written full v.fields.isNone (orNull (Fields.json full) v.fields))]

def Body.json : Body → Json
  | .struct fields => ofMembers [("kind", some (.str "struct")),
      ("fields", written full fields.isNone (orNull (Fields.json full) fields))]
  | .enum variants => ofMembers [("kind", some (.str "enum")),
      ("variants", some (.arr (variants.map (Variant.json full))))]
  | .aliasOf ty => ofMembers [("kind", some (.str "type")), ("alias", some (ty.json full))]

def Param.json : Param → Json
  | .type name => ofMembers [("kind", some (.str "type")), ("name", some (.str name))]
  | .const name ty => ofMembers
      [("kind", some (.str "const")), ("name", some (.str name)), ("type", some (.str ty))]

def Serialization.json : Serialization → Json
  | .borsh => .str "borsh"
  | .bytemuck => .str "bytemuck"
  | .bytemuckUnsafe => .str "bytemuckunsafe"
  | .custom name => ofMembers [("custom", some (.str name))]

def ReprModifier.json (kind : String) (modifier : ReprModifier) : Json :=
  ofMembers [("kind", some (.str kind)), ("packed", written full (!modifier.packed) (.bool modifier.packed)),
    ("align", written full modifier.align.isNone (orNull (fun n => .int (Int.ofNat n)) modifier.align))]

def Representation.json : Representation → Json
  | .rust modifier => modifier.json full "rust"
  | .c modifier => modifier.json full "c"
  | .transparent => ofMembers [("kind", some (.str "transparent"))]

def TypeDef.json (d : TypeDef) : Json :=
  ofMembers [("name", some (.str d.name)), ("docs", written full d.docs.isEmpty (.arr (d.docs.map .str))),
    ("serialization", written full (d.serialization = .borsh) d.serialization.json),
    ("repr", written full d.representation.isNone (orNull (Representation.json full) d.representation)),
    ("generics", written full d.params.isEmpty (.arr (d.params.map Param.json))),
    ("type", some (d.body.json full))]

end Writers

/-- Every array inside of the type has a length of 64 bits, or a generic one. -/
def Ty.Sized (ty : Ty) : Prop :=
  ∀ inner n, Ty.array inner (.value n) ∈ ty.within → n < Nat.pow 2 64

/-- A list without fields is one with names. -/
def Fields.Expressible : Fields → Prop
  | .named fields => ∀ f ∈ fields, f.ty.Sized
  | .tuple types => types ≠ [] ∧ ∀ ty ∈ types, ty.Sized

def Body.Expressible : Body → Prop
  | .struct fields => ∀ list ∈ fields, list.Expressible
  | .enum variants => ∀ v ∈ variants, ∀ list ∈ v.fields, list.Expressible
  | .aliasOf ty => ty.Sized

def Representation.align? : Representation → Option Nat
  | .rust modifier | .c modifier => modifier.align
  | .transparent => none

structure TypeDef.Expressible (d : TypeDef) : Prop where
  body : d.body.Expressible
  aligned : ∀ r ∈ d.representation, ∀ n ∈ r.align?, n < Nat.pow 2 64

theorem Ty.Sized.of_part {ty part : Ty} (h : ty.Sized) (hpart : part ∈ ty.parts) : part.Sized :=
  fun inner n harray => h inner n (mem_within_iff.mpr (.inr ⟨part, hpart, harray⟩))

theorem argsJson_eq (full : Bool) (args : List GenericArg) : argsJson full args = args.map (GenericArg.json full) := by
  induction args with
  | nil => rfl
  | cons arg rest ih => rw [argsJson, ih, List.map_cons]

section Plain

open Json (Plain plain_ofMembers plain_some plain_written plain_orNull plain_map)

variable {full : Bool}

theorem plain_nat {n : Nat} (h : n < Nat.pow 2 64) : Plain (.int n) :=
  .int (Int.le_trans (Int.neg_nonpos_of_nonneg (Int.natCast_nonneg _)) (Int.natCast_nonneg n)) (Int.ofNat_lt.mpr h)

theorem plain_texts (texts : List String) : Plain (.arr (texts.map .str)) :=
  plain_map fun text _ => .str text

theorem ArrayLength.plain_json {length : ArrayLength} (h : ∀ n, length = .value n → n < Nat.pow 2 64) :
    length.json.Plain := by
  cases length with
  | value n => exact plain_nat (h n rfl)
  | generic name => exact plain_ofMembers (plain_some (.str name))

theorem plain_slotJson {inner : Option Ty} (h : ∀ ty ∈ inner, (ty.json full).Plain) : (slotJson full inner).Plain := by
  cases inner with
  | none => exact .null
  | some ty => exact h ty rfl

theorem Ty.plain_json {ty : Ty} (h : ty.Sized) : (ty.json full).Plain := by
  induction ty using Ty.induction with
  | prim p => exact .str p.keyword
  | option tag inner ih =>
    have hinner := plain_slotJson fun ty hty => ih ty hty (h.of_part (Option.mem_toList.mpr hty))
    exact plain_ofMembers (plain_some hinner)
  | vec inner ih =>
    have hinner := plain_slotJson fun ty hty => ih ty hty (h.of_part (Option.mem_toList.mpr hty))
    exact plain_ofMembers (plain_some hinner)
  | array inner length ih =>
    have hinner := plain_slotJson fun ty hty => ih ty hty (h.of_part (Option.mem_toList.mpr hty))
    have hlength : length.json.Plain := by
      refine ArrayLength.plain_json fun n hn => h inner n ?_
      rw [← hn]
      exact self_mem_within _
    have hpair : Plain (.arr [slotJson full inner, length.json]) :=
      .arr (List.forall_iff_forall_mem.mp ⟨hinner, hlength⟩)
    exact plain_ofMembers (plain_some hpair)
  | defined name args ih =>
    have hargs : Plain (.arr (argsJson full args)) := by
      rw [argsJson_eq]
      refine plain_map fun arg harg => ?_
      cases arg with
      | type ty =>
        have hty := ih ty harg (h.of_part (mem_types_of_args.mpr harg))
        exact plain_ofMembers ⟨plain_some (.str _), plain_some hty⟩
      | const value => exact plain_ofMembers ⟨plain_some (.str _), plain_some (.str value)⟩
    exact plain_ofMembers (plain_some (plain_ofMembers ⟨plain_some (.str name), plain_written hargs⟩))
  | generic name => exact plain_ofMembers (plain_some (.str name))

theorem Field.plain_json {f : Field} (h : f.ty.Sized) : (f.json full).Plain :=
  plain_ofMembers ⟨plain_some (.str _), plain_written (plain_texts _), plain_some (Ty.plain_json h)⟩

theorem Fields.plain_json {fields : Fields} (h : fields.Expressible) : (fields.json full).Plain := by
  cases fields with
  | named fields => exact plain_map fun f hf => Field.plain_json (h f hf)
  | tuple types => exact plain_map fun ty hty => Ty.plain_json (h.2 ty hty)

theorem Variant.plain_json {v : Variant} (h : ∀ list ∈ v.fields, list.Expressible) : (v.json full).Plain :=
  plain_ofMembers ⟨plain_some (.str _), plain_written (plain_orNull fun list hlist => Fields.plain_json (h list hlist))⟩

theorem Body.plain_json {body : Body} (h : body.Expressible) : (body.json full).Plain := by
  cases body with
  | struct fields =>
    have hfields : Plain (orNull (Fields.json full) fields) :=
      plain_orNull fun list hlist => Fields.plain_json (h list hlist)
    exact plain_ofMembers ⟨plain_some (.str _), plain_written hfields⟩
  | enum variants =>
    have hvariants : Plain (.arr (variants.map (Variant.json full))) :=
      plain_map fun v hv => Variant.plain_json (h v hv)
    exact plain_ofMembers ⟨plain_some (.str _), plain_some hvariants⟩
  | aliasOf ty => exact plain_ofMembers ⟨plain_some (.str _), plain_some (Ty.plain_json h)⟩

theorem Param.plain_json (param : Param) : param.json.Plain := by
  cases param with
  | type name => exact plain_ofMembers ⟨plain_some (.str _), plain_some (.str name)⟩
  | const name ty => exact plain_ofMembers ⟨plain_some (.str _), plain_some (.str name), plain_some (.str ty)⟩

theorem Serialization.plain_json (s : Serialization) : s.json.Plain := by
  cases s with
  | custom name => exact plain_ofMembers (plain_some (.str name))
  | _ => exact .str _

theorem ReprModifier.plain_json {modifier : ReprModifier} (kind : String) (h : ∀ n ∈ modifier.align, n < Nat.pow 2 64) :
    (modifier.json full kind).Plain :=
  plain_ofMembers ⟨plain_some (.str kind), plain_written (.bool _),
    plain_written (plain_orNull fun n hn => plain_nat (h n hn))⟩

theorem Representation.plain_json {r : Representation} (h : ∀ n ∈ r.align?, n < Nat.pow 2 64) : (r.json full).Plain := by
  cases r with
  | rust modifier => exact modifier.plain_json "rust" h
  | c modifier => exact modifier.plain_json "c" h
  | transparent => exact plain_ofMembers (plain_some (.str _))

theorem TypeDef.plain_json {d : TypeDef} (h : d.Expressible) : (d.json full).Plain :=
  plain_ofMembers ⟨plain_some (.str _), plain_written (plain_texts _), plain_written d.serialization.plain_json,
    plain_written (plain_orNull fun r hr => Representation.plain_json (h.aligned r hr)),
    plain_written (plain_map fun param _ => param.plain_json), plain_some (Body.plain_json h.body)⟩

end Plain

end WireSchema.Schema
