import WireSchema.Proofs.Derivation.Resolved
import WireSchema.Proofs.Schema.TyInduction

/-!
# Inside of types and definitions

What is inside of a type, which instances it names, and that nothing inside of
what has a codec or a layout is without a codec.
-/

namespace WireSchema

set_option autoImplicit false

open Schema Registry

@[simp] theorem Schema.Ty.self_mem_within (ty : Ty) : ty ∈ ty.within := by
  cases ty <;> simp [Ty.within]

theorem mem_withinArgs {part : Ty} {args : List GenericArg} :
    part ∈ withinArgs args ↔ ∃ ty, GenericArg.type ty ∈ args ∧ part ∈ ty.within := by
  induction args with
  | nil => simp [withinArgs]
  | cons arg rest ih =>
    cases arg <;> simp [withinArgs, ih, or_and_right, exists_or]

theorem mem_within_iff {ty inner : Ty} :
    inner ∈ ty.within ↔ inner = ty ∨ ∃ part ∈ ty.parts, inner ∈ part.within := by
  cases ty with
  | prim p => simp [Ty.within, Ty.parts]
  | generic name => simp [Ty.within, Ty.parts]
  | option tag slot => cases slot <;> simp [Ty.within, Ty.parts, withinSlot]
  | vec slot => cases slot <;> simp [Ty.within, Ty.parts, withinSlot]
  | array slot length => cases slot <;> simp [Ty.within, Ty.parts, withinSlot]
  | defined name args => simp only [Ty.within, Ty.parts, List.mem_cons, mem_withinArgs, mem_types_of_args]

theorem mem_within_trans {ty part inner : Ty} (hpart : part ∈ ty.within) (hinner : inner ∈ part.within) :
    inner ∈ ty.within := by
  induction ty using Ty.induction_parts with
  | h ty ih =>
    rcases mem_within_iff.mp hpart with rfl | ⟨first, hfirst, hpart⟩
    · exact hinner
    · exact mem_within_iff.mpr (.inr ⟨first, hfirst, ih first hfirst hpart⟩)

namespace Registry

variable (registry : Registry) (env : Bindings)

def argInstances (args : List GenericArg) : List Instance :=
  (withinArgs args).filterMap (registry.instance? env)

@[simp] theorem instances_option (tag : OptionTag) (inner : Ty) :
    registry.instances env (.option tag (some inner)) = registry.instances env inner := by
  simp only [instances, Ty.within, withinSlot]
  rfl

@[simp] theorem instances_vec (inner : Ty) :
    registry.instances env (.vec (some inner)) = registry.instances env inner := by
  simp only [instances, Ty.within, withinSlot]
  rfl

@[simp] theorem instances_array (inner : Ty) (length : ArrayLength) :
    registry.instances env (.array (some inner) length) = registry.instances env inner := by
  simp only [instances, Ty.within, withinSlot]
  rfl

theorem instances_defined (name : String) (args : List GenericArg) :
    registry.instances env (.defined name args)
      = (registry.instance? env (.defined name args)).toList ++ registry.argInstances env args := by
  simp only [instances, argInstances, Ty.within, List.filterMap_cons]
  cases registry.instance? env (.defined name args) <;> rfl

@[simp] theorem argInstances_type (ty : Ty) (args : List GenericArg) :
    registry.argInstances env (.type ty :: args)
      = registry.instances env ty ++ registry.argInstances env args := by
  simp [argInstances, instances, withinArgs]

@[simp] theorem argInstances_const (value : String) (args : List GenericArg) :
    registry.argInstances env (.const value :: args) = registry.argInstances env args := rfl

theorem instance?_defined (name : String) (args : List GenericArg) :
    registry.instance? env (.defined name args) = (do
      let d ← registry.get? name
      if d.params.length = args.length then
        return ⟨name, ← resolveArgs registry env d.params args⟩
      else none) := rfl

theorem resolve_defined (name : String) (args : List GenericArg) :
    (Ty.defined name args).resolve registry env
      = (registry.instance? env (.defined name args)).map fun i => .defined i.key := by
  rw [Ty.resolve, instance?_defined]
  cases registry.get? name with
  | none => rfl
  | some d =>
    by_cases hlen : d.params.length = args.length
    · simp only [hlen, if_true, Option.bind_eq_bind, Option.bind_some]
      cases resolveArgs registry env d.params args <;> rfl
    · simp [hlen]

/-- The parameters take the arguments, each one of its kind. -/
inductive Binds : List Param → List GenericArg → List Argument → Prop
  | nil : Binds [] [] []
  | type {param : String} {ty : Ty} {codec : Codec} {params : List Param} {args : List GenericArg}
      {arguments : List Argument} : ty.resolve registry env = some codec → Binds params args arguments →
      Binds (.type param :: params) (.type ty :: args) (.type codec :: arguments)
  | const {param kind value : String} {params : List Param} {args : List GenericArg}
      {arguments : List Argument} : Binds params args arguments →
      Binds (.const param kind :: params) (.const value :: args)
        (.const ((env.consts.lookup value).getD value) :: arguments)

end Registry

section Binding

variable {registry : Registry} {env : Bindings} {params : List Param} {args : List GenericArg}
  {arguments : List Argument}

theorem binds_of_resolveArgs (hlen : params.length = args.length)
    (h : resolveArgs registry env params args = some arguments) :
    registry.Binds env params args arguments := by
  induction args generalizing params arguments with
  | nil =>
    obtain rfl := List.length_eq_zero_iff.mp hlen
    cases h
    exact .nil
  | cons arg rest ih =>
    obtain ⟨param, params, rfl⟩ := List.exists_cons_of_length_eq_add_one hlen
    rw [List.length_cons, List.length_cons, Nat.add_right_cancel_iff] at hlen
    cases arg with
    | type ty =>
      cases param with
      | const param kind => cases h
      | type param =>
        obtain ⟨codec, hcodec, h⟩ := Option.bind_eq_some_iff.mp h
        obtain ⟨tail, htail, heq⟩ := Option.bind_eq_some_iff.mp h
        cases heq
        exact .type hcodec (ih hlen htail)
    | const value =>
      cases param with
      | type param => cases h
      | const param kind =>
        obtain ⟨tail, htail, heq⟩ := Option.bind_eq_some_iff.mp h
        cases heq
        exact .const (ih hlen htail)

theorem Registry.Binds.length_eq (h : registry.Binds env params args arguments) :
    params.length = args.length := by
  induction h with
  | nil => rfl
  | type _ _ ih => exact congrArg (· + 1) ih
  | const _ ih => exact congrArg (· + 1) ih

theorem Registry.Binds.length_arguments (h : registry.Binds env params args arguments) :
    arguments.length = params.length := by
  induction h with
  | nil => rfl
  | type _ _ ih => exact congrArg (· + 1) ih
  | const _ ih => exact congrArg (· + 1) ih

theorem Registry.Binds.codec_of_mem (h : registry.Binds env params args arguments) {ty : Ty}
    (hty : GenericArg.type ty ∈ args) : ∃ codec, ty.resolve registry env = some codec := by
  induction h with
  | nil => cases hty
  | type hcodec _ ih =>
    rcases List.mem_cons.mp hty with heq | hty
    · cases heq
      exact ⟨_, hcodec⟩
    · exact ih hty
  | const _ ih => exact ih ((List.mem_cons.mp hty).resolve_left fun heq => by cases heq)

/-- A reference that names an instance gives its definition what it takes. -/
theorem binds_of_instance? {name : String} {i : Instance}
    (h : registry.instance? env (.defined name args) = some i) :
    ∃ d arguments, registry.get? name = some d ∧ registry.Binds env d.params args arguments
      ∧ i = ⟨name, arguments⟩ := by
  obtain ⟨d, hd, h⟩ := Option.bind_eq_some_iff.mp h
  split at h
  · next hlen =>
    obtain ⟨arguments, harguments, heq⟩ := Option.bind_eq_some_iff.mp h
    cases heq
    exact ⟨d, arguments, hd, binds_of_resolveArgs hlen harguments, rfl⟩
  · cases h

end Binding

section Instances

variable {registry : Registry}

theorem instances_subset {env : Bindings} {ty part : Ty} (h : part ∈ ty.within) :
    registry.instances env part ⊆ registry.instances env ty :=
  List.filterMap_subset _ fun _ hinner => mem_within_trans h hinner

theorem mem_instances {env : Bindings} {ty : Ty} {i : Instance} (h : registry.instance? env ty = some i) :
    i ∈ registry.instances env ty :=
  List.mem_filterMap.mpr ⟨ty, ty.self_mem_within, h⟩

theorem name_of_instance? {env : Bindings} {name : String} {args : List GenericArg} {i : Instance}
    (h : registry.instance? env (.defined name args) = some i) : i.name = name := by
  obtain ⟨d, arguments, -, -, rfl⟩ := binds_of_instance? h
  rfl

theorem layout?_eq {i : Instance} {d : TypeDef} (h : registry.get? i.name = some d) :
    registry.layout? i = d.layout? (Ty.resolve registry (registry.bindings i)) := by
  rw [layout?, h]
  rfl

theorem types_eq {i : Instance} {d : TypeDef} (h : registry.get? i.name = some d) :
    registry.types i = d.body.types := by
  rw [Registry.types, h]

end Instances

section Resolve

variable {registry : Registry} {env : Bindings}

theorem resolve_of_mem_parts {ty part : Ty} {codec : Codec} (h : ty.resolve registry env = some codec)
    (hpart : part ∈ ty.parts) : ∃ codec, part.resolve registry env = some codec := by
  cases ty with
  | prim p => cases hpart
  | generic name => cases hpart
  | option tag slot =>
    obtain rfl := Option.mem_toList.mp hpart
    obtain ⟨inner, hinner, -⟩ := Option.map_eq_some_iff.mp h
    exact ⟨inner, hinner⟩
  | vec slot =>
    obtain rfl := Option.mem_toList.mp hpart
    obtain ⟨inner, hinner, -⟩ := Option.map_eq_some_iff.mp h
    exact ⟨inner, hinner⟩
  | array slot length =>
    obtain rfl := Option.mem_toList.mp hpart
    obtain ⟨n, -, h⟩ := Option.bind_eq_some_iff.mp h
    obtain ⟨inner, hinner, -⟩ := Option.bind_eq_some_iff.mp h
    exact ⟨inner, hinner⟩
  | defined name args =>
    rw [resolve_defined] at h
    obtain ⟨i, hi, -⟩ := Option.map_eq_some_iff.mp h
    obtain ⟨d, arguments, -, hbinds, -⟩ := binds_of_instance? hi
    exact hbinds.codec_of_mem (mem_types_of_args.mp hpart)

/-- With a type all types inside of it have a codec. -/
theorem resolve_within {ty inner : Ty} (h : ∃ codec, ty.resolve registry env = some codec)
    (hinner : inner ∈ ty.within) : ∃ codec, inner.resolve registry env = some codec := by
  induction ty using Ty.induction_parts with
  | h ty ih =>
    rcases mem_within_iff.mp hinner with rfl | ⟨part, hpart, hinner⟩
    · exact h
    · obtain ⟨codec, h⟩ := h
      exact ih part hpart (resolve_of_mem_parts h hpart) hinner

end Resolve

section Layouts

variable {codecOf : Ty → Option Codec}

theorem types_of_not_isComplexEnum {variants : List Variant}
    (h : (Body.enum variants).isComplexEnum = false) : (Body.enum variants).types = [] := by
  rw [Body.isComplexEnum, List.any_eq_false] at h
  rw [Body.types, List.flatMap_eq_nil_iff]
  intro v hv
  have hnone := h v hv
  cases hfields : v.fields with
  | none => rfl
  | some fields => simp [hfields] at hnone

theorem codec_of_fieldCodecs? {entries : List (String × Ty)} {codecs : List FieldCodec}
    (h : fieldCodecs? codecOf entries = some codecs) {ty : Ty} (hty : ty ∈ entries.map Prod.snd) :
    ∃ codec, codecOf ty = some codec := by
  induction entries generalizing codecs with
  | nil => cases hty
  | cons entry rest ih =>
    obtain ⟨codec, hcodec, h⟩ := Option.bind_eq_some_iff.mp h
    obtain ⟨tail, htail, -⟩ := Option.bind_eq_some_iff.mp h
    rcases List.mem_cons.mp hty with rfl | hty
    · exact ⟨codec, hcodec⟩
    · exact ih htail hty

theorem codec_of_variantCodecs? {variants : List Variant} {codecs : List VariantCodec}
    (h : variantCodecs? codecOf variants = some codecs) {ty : Ty} (hty : ty ∈ (Body.enum variants).types) :
    ∃ codec, codecOf ty = some codec := by
  induction variants generalizing codecs with
  | nil => cases hty
  | cons v rest ih =>
    obtain ⟨name, _ | fields⟩ := v
    · obtain ⟨tail, htail, -⟩ := Option.bind_eq_some_iff.mp h
      exact ih htail hty
    · obtain ⟨head, hhead, h⟩ := Option.bind_eq_some_iff.mp h
      obtain ⟨tail, htail, -⟩ := Option.bind_eq_some_iff.mp h
      rcases List.mem_append.mp hty with hty | hty
      · exact codec_of_fieldCodecs? hhead hty
      · exact ih htail hty

/-- In a body with a layout every type has a codec. -/
theorem codec_of_layout? {body : Body} {layout : Layout} (h : body.layout? codecOf = some layout)
    {ty : Ty} (hty : ty ∈ body.types) : ∃ codec, codecOf ty = some codec := by
  cases body with
  | struct fields =>
    cases fields with
    | none => cases hty
    | some fields =>
      obtain ⟨codecs, hcodecs, -⟩ := Option.map_eq_some_iff.mp h
      exact codec_of_fieldCodecs? hcodecs hty
  | enum variants =>
    rw [Body.layout?] at h
    split at h
    · cases h
    · split at h
      · obtain ⟨codecs, hcodecs, -⟩ := Option.map_eq_some_iff.mp h
        exact codec_of_variantCodecs? hcodecs hty
      · next hcomplex =>
        rw [types_of_not_isComplexEnum (by simpa using hcomplex)] at hty
        cases hty
  | aliasOf ty' =>
    obtain ⟨codec, hcodec, -⟩ := Option.map_eq_some_iff.mp h
    obtain rfl := List.mem_singleton.mp hty
    exact ⟨codec, hcodec⟩

end Layouts

theorem Registry.codec_of_layout? {registry : Registry} {i : Instance} {layout : Layout}
    (h : registry.layout? i = some layout) {ty : Ty} (hty : ty ∈ registry.types i) :
    ∃ codec, ty.resolve registry (registry.bindings i) = some codec := by
  obtain ⟨d, hd, h⟩ := Option.bind_eq_some_iff.mp h
  rw [types_eq hd] at hty
  unfold TypeDef.layout? at h
  split at h
  · cases h
  · exact WireSchema.codec_of_layout? h hty

end WireSchema
