import WireSchema.Proofs.Derivation.Identity
import WireSchema.Proofs.Derivation.Requests

/-!
# Bound generics and substituted types

A definition with generics is derived with bindings, which map a parameter to a
codec or to the text of a constant. What is derived so is what is derived for
the type in which the parameters are replaced by the arguments themselves,
outside of any definition, whatever has been derived before. The relation
between substitution and bindings is kept by every instantiation, in which
parameters may have the names of the ones that they stand behind.

That a derivation succeeds is not said: an instance may meet a limit in one
state that it does not meet in another.
-/

namespace WireSchema

set_option autoImplicit false

open Schema Registry WireSchema.Derivation

/-- What parameters are replaced by; of two with one name the first in the list counts. -/
structure Substitution where
  types : List (String × Ty)
  consts : List (String × String)

namespace Substitution

def none : Substitution := ⟨[], []⟩

/-- Put arguments in front of what is replaced already. -/
def bind (σ : Substitution) : List Param → List GenericArg → Substitution
  | .type param :: params, .type ty :: args =>
    Substitution.bind { σ with types := (param, ty) :: σ.types } params args
  | .const param _ :: params, .const text :: args =>
    Substitution.bind { σ with consts := (param, text) :: σ.consts } params args
  | _, _ => σ

end Substitution

/-- A length is replaced by the number that the text of its constant is read as. -/
def Schema.ArrayLength.subst (σ : Substitution) : ArrayLength → ArrayLength
  | .value n => .value n
  | .generic name =>
    match (σ.consts.lookup name).bind fun text => Decimal.natural? sizeLimit text.toList with
    | some n => .value n
    | none => .generic name

mutual

/-- The type with its parameters replaced, at every depth. The text of a constant that names a parameter
is replaced by the text of that parameter. -/
def Schema.Ty.subst (σ : Substitution) : Ty → Ty
  | .prim p => .prim p
  | .option tag inner => .option tag (substSlot σ inner)
  | .vec inner => .vec (substSlot σ inner)
  | .array inner length => .array (substSlot σ inner) (length.subst σ)
  | .defined name args => .defined name (substArgs σ args)
  | .generic name => (σ.types.lookup name).getD (.generic name)

def substSlot (σ : Substitution) : Option Ty → Option Ty
  | none => none
  | some ty => some (ty.subst σ)

def substArgs (σ : Substitution) : List GenericArg → List GenericArg
  | [] => []
  | .type ty :: args => .type (ty.subst σ) :: substArgs σ args
  | .const value :: args => .const ((σ.consts.lookup value).getD value) :: substArgs σ args

end

/-- No generic occurs in the type, nor as the length of an array in it. -/
def Schema.Ty.IsClosed (ty : Ty) : Prop :=
  ∀ part ∈ ty.within, (∀ name, part ≠ .generic name) ∧ ∀ inner name, part ≠ .array inner (.generic name)

section Bound

variable {registry : Registry} {σ : Substitution} {env : Bindings}

/-- The parameters are bound to the codecs of the types that replace them, and to the same constants. -/
structure Substitution.Gives (registry : Registry) (σ : Substitution) (env : Bindings) : Prop where
  types : ∀ name, env.types.lookup name = (σ.types.lookup name).bind (Ty.resolve registry .none)
  consts : env.consts = σ.consts

theorem Substitution.gives_none : Substitution.none.Gives registry .none :=
  ⟨fun _ => rfl, rfl⟩

theorem resolve?_subst (h : σ.Gives registry env) (length : ArrayLength) :
    (length.subst σ).resolve? .none = length.resolve? env := by
  cases length with
  | value n => rfl
  | generic name =>
    rw [ArrayLength.subst, ArrayLength.resolve?, h.consts]
    cases (σ.consts.lookup name).bind fun text => Decimal.natural? sizeLimit text.toList <;> rfl

@[simp] theorem length_substArgs (σ : Substitution) (args : List GenericArg) :
    (substArgs σ args).length = args.length := by
  induction args with
  | nil => rfl
  | cons arg rest ih => cases arg <;> exact congrArg (· + 1) ih

theorem resolveArgs_subst (h : σ.Gives registry env) {args : List GenericArg}
    (hargs : ∀ ty, GenericArg.type ty ∈ args → (ty.subst σ).resolve registry .none = ty.resolve registry env)
    (params : List Param) :
    resolveArgs registry .none params (substArgs σ args) = resolveArgs registry env params args := by
  induction args generalizing params with
  | nil => rfl
  | cons arg rest ih =>
    have ih := ih fun ty hty => hargs ty (List.mem_cons_of_mem _ hty)
    cases arg with
    | type ty =>
      rcases params with _ | ⟨param | ⟨param, kind⟩, params⟩
      · rfl
      · simp only [substArgs, resolveArgs, hargs ty List.mem_cons_self, ih]
      · rfl
    | const value =>
      rcases params with _ | ⟨param | ⟨param, kind⟩, params⟩
      · rfl
      · rfl
      · -- a text that is replaced is not looked up once more
        simp only [substArgs, resolveArgs, ih, h.consts]
        rfl

/-- The codec of a type in which generics are bound is that of the substituted type. -/
theorem resolve_subst (h : σ.Gives registry env) (ty : Ty) :
    (ty.subst σ).resolve registry .none = ty.resolve registry env := by
  have hslot : ∀ {inner : Option Ty},
      (∀ ty ∈ inner, (ty.subst σ).resolve registry .none = ty.resolve registry env) →
      resolveSlot registry .none (substSlot σ inner) = resolveSlot registry env inner := by
    intro inner ih
    cases inner with
    | none => rfl
    | some ty => exact ih ty rfl
  induction ty using Ty.induction with
  | prim p => rfl
  | option tag inner ih => rw [Ty.subst, Ty.resolve, Ty.resolve, hslot ih]
  | vec inner ih => rw [Ty.subst, Ty.resolve, Ty.resolve, hslot ih]
  | array inner length ih => rw [Ty.subst, Ty.resolve, Ty.resolve, hslot ih, resolve?_subst h]
  | defined name args ih =>
    rw [Ty.subst, Ty.resolve, Ty.resolve, length_substArgs]
    simp only [resolveArgs_subst h ih]
  | generic name =>
    rw [Ty.subst, Ty.resolve, h.types]
    cases σ.types.lookup name <;> rfl

/-- Arguments are put in front of a substitution and of bindings alike. -/
theorem Substitution.Gives.bind (h : σ.Gives registry env) {τ : Substitution} {bound : Bindings}
    (hbound : τ.Gives registry bound) {params : List Param} {args : List GenericArg}
    {arguments : List Argument} (hbinds : registry.Binds env params args arguments) :
    (τ.bind params (substArgs σ args)).Gives registry (bound.bind params arguments) := by
  induction hbinds generalizing τ bound with
  | nil => exact hbound
  | @type param ty codec params args arguments hcodec _ ih =>
    refine ih ⟨fun name => ?_, hbound.consts⟩
    rw [List.lookup_cons, List.lookup_cons]
    cases name == param with
    | true => exact ((resolve_subst h ty).trans hcodec).symm
    | false => exact hbound.types name
  | @const param kind value params args arguments _ ih =>
    rw [h.consts]
    exact ih ⟨hbound.types, by rw [hbound.consts]⟩

theorem isClosed_of_resolve {ty : Ty} {codec : Codec} (h : ty.resolve registry .none = some codec) :
    ty.IsClosed := by
  intro part hpart
  obtain ⟨inner, hinner⟩ := resolve_within ⟨codec, h⟩ hpart
  constructor
  · rintro name rfl
    cases hinner
  · rintro slot name rfl
    cases hinner

end Bound

section Answers

variable {registry : Registry} {env : Bindings} {ty : Ty} {codec : Codec}

/-- There are runs in which the type is derived to the codec, and it is derived to no other: not at
another place, not with other instances under way, and not with other layouts stored. -/
def Registry.Answers (registry : Registry) (env : Bindings) (ty : Ty) (codec : Codec) : Prop :=
  (∃ path s t, (ty.derive registry registry.deriveLayout env path).run s = (.ok codec, t))
    ∧ ∀ fuel path s c t, (ty.derive registry (registry.layoutWithin fuel) env path).run s = (.ok c, t) →
      c = codec

theorem resolve_of_run {fuel : Nat} {path : String} {s t : DerivationState}
    (h : (ty.derive registry (registry.layoutWithin fuel) env path).run s = (.ok codec, t)) :
    ty.resolve registry env = some codec :=
  have hclosed := registry.closed_true
  ((derives_type hclosed (derivesLayouts_layoutWithin hclosed fuel) ty trivial path).ok s _ t h).1

theorem answers_of_resolve (h : ty.resolve registry env = some codec) : registry.Answers env ty codec := by
  constructor
  · -- nothing is left to derive where all that the type mentions is under way
    refine ⟨"", ⟨.empty, (registry.instances env ty).map fun j => (j.name, j.key), []⟩, _,
      run_derive_of_known "" h fun j hj => ?_⟩
    exact DerivationState.isKnown_iff.mpr (.inr ⟨j.name, List.mem_map_of_mem hj⟩)
  · intro fuel path s c t hrun
    exact Option.some.inj ((resolve_of_run hrun).symm.trans h)

end Answers

section Layouts

variable {P : Ty → Codec → Prop} {codecOf : Ty → Option Codec}

/-- Each field with its name and with a codec that `P` allows for its type, in the order of the definition;
the fields of a tuple are numbered. -/
inductive Schema.Fields.HasCodecs (P : Ty → Codec → Prop) : Fields → List FieldCodec → Prop
  | named {fields : List Field} {codecs : List FieldCodec} :
      List.Forall₂ (fun f c => c.name = f.name ∧ P f.ty c.codec) fields codecs →
      HasCodecs P (.named fields) codecs
  | tuple {types : List Ty} {codecs : List FieldCodec} :
      List.Forall₂ (fun (ty, i) c => c.name = s!"v{i}" ∧ P ty c.codec) types.zipIdx codecs →
      HasCodecs P (.tuple types) codecs

/-- A variant of a layout has the name of the declared one, and the fields of its payload if it has one. -/
def Schema.Variant.HasCodecs (P : Ty → Codec → Prop) (v : Variant) (codec : VariantCodec) : Prop :=
  codec.name = v.name ∧ Option.Rel (Fields.HasCodecs P) v.fields codec.fields

/-- The layout has what the body of a definition declares. -/
inductive Schema.Body.HasCodecs (P : Ty → Codec → Prop) : Body → Layout → Prop
  | empty : HasCodecs P (.struct none) (.struct [])
  | struct {fields : Fields} {codecs : List FieldCodec} : fields.HasCodecs P codecs →
      HasCodecs P (.struct (some fields)) (.struct codecs)
  | simple {variants : List Variant} : (∀ v ∈ variants, v.fields = none) →
      HasCodecs P (.enum variants) (.simpleEnum (variants.map Variant.name))
  | complex {variants : List Variant} {codecs : List VariantCodec} : (∃ v ∈ variants, v.fields ≠ none) →
      List.Forall₂ (Variant.HasCodecs P) variants codecs → HasCodecs P (.enum variants) (.complexEnum codecs)
  | aliasOf {ty : Ty} {codec : Codec} : P ty codec → HasCodecs P (.aliasOf ty) (.aliasOf codec)

section Body

variable (hP : ∀ ty codec, codecOf ty = some codec → P ty codec)
include hP

theorem hasCodecs_of_fieldCodecs? {fields : Fields} {codecs : List FieldCodec}
    (h : fieldCodecs? codecOf fields.entries = some codecs) : fields.HasCodecs P codecs := by
  have hall : ∀ {entries : List (String × Ty)} {codecs : List FieldCodec},
      fieldCodecs? codecOf entries = some codecs →
      List.Forall₂ (fun entry c => c.name = entry.1 ∧ P entry.2 c.codec) entries codecs := by
    intro entries
    induction entries with
    | nil =>
      intro codecs h
      cases h
      exact .nil
    | cons entry rest ih =>
      intro codecs h
      obtain ⟨codec, hcodec, h⟩ := Option.bind_eq_some_iff.mp h
      obtain ⟨tail, htail, heq⟩ := Option.bind_eq_some_iff.mp h
      cases heq
      exact .cons ⟨rfl, hP _ _ hcodec⟩ (ih htail)
  cases fields with
  | named fields => exact .named (List.forall₂_map_left_iff.mp (hall h))
  | tuple types => exact .tuple (List.forall₂_map_left_iff.mp (hall h))

theorem hasCodecs_of_variantCodecs? {variants : List Variant} {codecs : List VariantCodec}
    (h : variantCodecs? codecOf variants = some codecs) :
    List.Forall₂ (Variant.HasCodecs P) variants codecs := by
  induction variants generalizing codecs with
  | nil =>
    cases h
    exact .nil
  | cons v rest ih =>
    obtain ⟨name, _ | fields⟩ := v
    · obtain ⟨tail, htail, heq⟩ := Option.bind_eq_some_iff.mp h
      cases heq
      exact .cons ⟨rfl, .none⟩ (ih htail)
    · obtain ⟨payload, hpayload, h⟩ := Option.bind_eq_some_iff.mp h
      obtain ⟨tail, htail, heq⟩ := Option.bind_eq_some_iff.mp h
      cases heq
      exact .cons ⟨rfl, .some (hasCodecs_of_fieldCodecs? hP hpayload)⟩ (ih htail)

theorem hasCodecs_of_layout? {d : TypeDef} {layout : Layout} (h : d.layout? codecOf = some layout) :
    d.body.HasCodecs P layout := by
  have hbody : d.body.layout? codecOf = some layout := by
    unfold TypeDef.layout? at h
    split at h
    · cases h
    · exact h
  cases hb : d.body with
  | struct fields =>
    rw [hb] at hbody
    cases fields with
    | none =>
      cases hbody
      exact .empty
    | some fields =>
      obtain ⟨codecs, hcodecs, rfl⟩ := Option.map_eq_some_iff.mp hbody
      exact .struct (hasCodecs_of_fieldCodecs? hP hcodecs)
  | enum variants =>
    rw [hb, Body.layout?] at hbody
    split at hbody
    · cases hbody
    · split at hbody
      · next hcomplex =>
        obtain ⟨codecs, hcodecs, rfl⟩ := Option.map_eq_some_iff.mp hbody
        exact .complex (by simpa [Body.isComplexEnum, Option.isSome_iff_ne_none] using hcomplex)
          (hasCodecs_of_variantCodecs? hP hcodecs)
      · next hsimple =>
        cases hbody
        exact .simple (by simpa [Body.isComplexEnum] using hsimple)
  | aliasOf ty =>
    rw [hb] at hbody
    obtain ⟨codec, hcodec, rfl⟩ := Option.map_eq_some_iff.mp hbody
    exact .aliasOf (hP ty codec hcodec)

end Body

theorem layout?_of_run {registry : Registry} {env : Bindings} {fuel : Nat} {d : TypeDef} {key : String}
    {s t : DerivationState} {layout : Layout}
    (h : (registry.layoutWithin fuel d env key).run s = (.ok layout, t)) :
    d.layout? (Ty.resolve registry env) = some layout := by
  have hclosed := registry.closed_true
  cases fuel with
  | zero => cases h
  | succ fuel =>
    have htypes : ∀ ty ∈ d.body.types, ∀ path, Meets registry (fun _ _ => True) True
        (ty.derive registry (registry.layoutWithin fuel) env path)
        (fun codec => ty.resolve registry env = some codec) (registry.instances env ty) := fun ty _ path =>
      (derives_type hclosed (derivesLayouts_layoutWithin hclosed fuel) ty trivial path).mono
        (fun _ => trivial) (fun _ => id) (List.Subset.refl _)
    exact ((meets_layout htypes (fun _ => trivial) key).ok s layout t h).1

end Layouts

section Arising

/-- The bindings that instantiations come to, each with what it replaces parameters by: from nothing
bound, the arguments of a reference are bound to the parameters of its definition. -/
inductive Registry.Arises (registry : Registry) : Substitution → Bindings → Prop
  | outside : Arises registry .none .none
  | inside {σ : Substitution} {env : Bindings} {fuel : Nat} {path name : String} {d : TypeDef}
      {args : List GenericArg} {bound : Bindings} {labels : List String} {s t : DerivationState} :
      Arises registry σ env → registry.get? name = some d → d.params.length = args.length →
      (bindArgs registry (registry.layoutWithin fuel) env path name .none [] d.params args).run s
        = (.ok (bound, labels), t) →
      Arises registry (Substitution.none.bind d.params (substArgs σ args)) bound

variable {registry : Registry} {σ : Substitution} {env : Bindings}

theorem Registry.Arises.gives (h : registry.Arises σ env) : σ.Gives registry env := by
  induction h with
  | outside => exact Substitution.gives_none
  | @inside σ env fuel path name d args bound labels s t _ _ hlen hrun ih =>
    have hclosed := registry.closed_true
    obtain ⟨arguments, harguments, heq⟩ := ((meets_bindArgs path name
      (fun ty _ => derives_type hclosed (derivesLayouts_layoutWithin hclosed fuel) ty)
      (fun _ _ => trivial) .none [] hlen).ok s _ t hrun).1
    cases heq
    exact ih.bind Substitution.gives_none (binds_of_resolveArgs hlen harguments)

/-- A type with bound generics is derived to one codec, whatever was derived before, which is that of the
substituted type. A layout has the declared fields and variants with the codecs of such types, and so has
what is stored under the key of a definition when it is instantiated. -/
theorem derives_substituted (h : registry.Arises σ env) (fuel : Nat) :
    let Given : Ty → Codec → Prop := fun ty codec =>
      (ty.subst σ).IsClosed ∧ registry.Answers .none (ty.subst σ) codec
    (∀ (ty : Ty) path s codec t, (ty.derive registry (registry.layoutWithin fuel) env path).run s = (.ok codec, t) →
      registry.Answers env ty codec ∧ Given ty codec)
    ∧ (∀ d key s layout t, (registry.layoutWithin fuel d env key).run s = (.ok layout, t) →
      d.body.HasCodecs Given layout)
    ∧ ∀ d labels s codec t, ¬ s.isKnown (instanceKey d.name labels) →
      (instantiate (registry.layoutWithin fuel) d env labels).run s = (.ok codec, t) →
      ∃ layout, t.layouts.get? (instanceKey d.name labels) = some layout ∧ d.body.HasCodecs Given layout := by
  intro Given
  have hgiven : ∀ ty codec, Ty.resolve registry env ty = some codec → Given ty codec := by
    intro ty codec hcodec
    have hclosed := (resolve_subst h.gives ty).trans hcodec
    exact ⟨isClosed_of_resolve hclosed, answers_of_resolve hclosed⟩
  have hlayout : ∀ d key s layout t, (registry.layoutWithin fuel d env key).run s = (.ok layout, t) →
      d.body.HasCodecs Given layout := fun d key s layout t hrun =>
    hasCodecs_of_layout? hgiven (layout?_of_run hrun)
  refine ⟨fun ty path s codec t hrun => ?_, hlayout, fun d labels s codec t hnew hrun => ?_⟩
  · have hcodec := resolve_of_run hrun
    exact ⟨answers_of_resolve hcodec, hgiven ty codec hcodec⟩
  · cases instantiates hrun with
    | known hknown => exact absurd hknown hnew
    | stored _ _ hderived => exact ⟨_, DerivationState.get?_store _ _ _, hlayout _ _ _ _ _ hderived⟩

/-- A row in a table; both have a parameter `T`, and the length of the row is called differently in each. -/
theorem derives_substituted_rows :
    let u8 : Ty := .prim (.scalar .u8)
    let row : TypeDef := .record "Row" [.type "T", .const "N" "usize"]
      [("cells", .array (some (.generic "T")) (.generic "N"))]
    let table : TypeDef := .record "Table" [.type "T", .const "M" "usize"]
      [("rows", .vec (some (.defined "Row" [.type (.vec (some (.generic "T"))), .const "M"])))]
    let registry := Registry.ofTypes [row, table]
    let cells : Ty := .array (some (.generic "T")) (.generic "N")
    let inRow : Bindings := ⟨[("T", .vec (.prim (.scalar .u8)))], [("N", "2")]⟩
    let codec : Codec := .array (.vec (.prim (.scalar .u8))) 2
    registry.Answers inRow cells codec
      ∧ registry.Answers .none (.array (some (.vec (some u8))) (.value 2)) codec := by
  intro u8 row table registry cells inRow codec
  have hbindTable : (bindArgs registry registry.deriveLayout .none "" "Table" .none [] table.params
      [.type u8, .const "2"]).run .initial
        = (.ok (⟨[("T", .prim (.scalar .u8))], [("M", "2")]⟩, ["u8", "2"]), .initial) := rfl
  have hbindRow : (bindArgs registry registry.deriveLayout ⟨[("T", .prim (.scalar .u8))], [("M", "2")]⟩ "" "Row"
      .none [] row.params [.type (.vec (some (.generic "T"))), .const "M"]).run .initial
        = (.ok (inRow, ["Vec<u8>", "2"]), .initial) := rfl
  have htable := Registry.Arises.outside.inside (d := table) rfl rfl hbindTable
  have hrow : registry.Arises ⟨[("T", .vec (some u8))], [("N", "2")]⟩ inRow :=
    htable.inside (d := row) rfl rfl hbindRow
  obtain ⟨hcells, -, hsubst⟩ := (derives_substituted hrow 0).1 cells "" .initial codec .initial rfl
  exact ⟨hcells, hsubst⟩

end Arising

end WireSchema
