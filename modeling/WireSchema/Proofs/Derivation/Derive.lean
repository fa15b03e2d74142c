import WireSchema.Proofs.Derivation.Instantiate
import WireSchema.Proofs.Derivation.Parts

/-!
# Derivations answer with what references stand for

Every type is derived to its codec, every layout to the layout of its instance,
and all instances in them are known afterwards. There are three inductions: on
the type, on the body of a definition, and on the number of layouts that may be
under way inside of each other. A failure that is not the limit on instances
under way has its cause in a type without a codec or an instance without a
layout; which of several causes is reported is not said.
-/

namespace WireSchema

set_option autoImplicit false

open Schema Registry WireSchema.Derivation

section Arguments

variable {registry : Registry} {G : Bindings → Ty → Prop} {derive : LayoutDeriver} {env : Bindings}

/-- A type is derived to its codec, and what it names is known. -/
def Derives (registry : Registry) (G : Bindings → Ty → Prop) (derive : LayoutDeriver) (env : Bindings)
    (ty : Ty) : Prop :=
  G env ty → ∀ path, Meets registry G (registry.Broken G) (ty.derive registry derive env path)
    (fun codec => ty.resolve registry env = some codec) (registry.instances env ty)

theorem meets_bindArgs (path name : String) {args : List GenericArg}
    (h : ∀ ty, GenericArg.type ty ∈ args → Derives registry G derive env ty)
    (hG : ∀ ty, GenericArg.type ty ∈ args → G env ty) (bindings : Bindings) (labels : List String)
    {params : List Param} (hlen : params.length = args.length) :
    Meets registry G (registry.Broken G ∨ resolveArgs registry env params args = none)
      (bindArgs registry derive env path name bindings labels params args)
      (fun result => ∃ arguments, resolveArgs registry env params args = some arguments ∧
        result = (bindings.bind params arguments, labels ++ arguments.map Argument.text))
      (registry.argInstances env args) := by
  induction args generalizing bindings labels params with
  | nil =>
    rw [List.length_nil, List.length_eq_zero_iff] at hlen
    subst hlen
    exact meets_pure ⟨[], rfl, by simp [Bindings.bind]⟩
  | cons arg rest ih =>
    obtain ⟨param, params, rfl⟩ := List.exists_cons_of_length_eq_add_one hlen
    rw [List.length_cons, List.length_cons, Nat.add_right_cancel_iff] at hlen
    have ih := ih (fun ty hty => h ty (List.mem_cons_of_mem _ hty))
      (fun ty hty => hG ty (List.mem_cons_of_mem _ hty))
    cases arg with
    | type ty =>
      cases param with
      | const param text =>
        rw [bindArgs]
        exact meets_throw (.inr (.inr rfl))
      | type param =>
        rw [bindArgs, argInstances_type]
        have hty := (h ty List.mem_cons_self (hG ty List.mem_cons_self) path).mono
          (C := registry.Broken G ∨ resolveArgs registry env (.type param :: params) (.type ty :: rest) = none)
          .inl (fun _ => id) (List.Subset.refl _)
        refine hty.bind fun codec hcodec => ?_
        refine (ih _ _ hlen).mono ?_ ?_ (List.Subset.refl _)
        · exact Or.imp_right fun hnone => by simp [resolveArgs, hcodec, hnone]
        · rintro _ ⟨arguments, harguments, rfl⟩
          refine ⟨.type codec :: arguments, by simp [resolveArgs, hcodec, harguments], ?_⟩
          simp [Bindings.bind, Argument.text]
    | const value =>
      cases param with
      | type param =>
        rw [bindArgs]
        exact meets_throw (.inr (.inr rfl))
      | const param text =>
        rw [bindArgs, argInstances_const]
        refine (ih _ _ hlen).mono ?_ ?_ (List.Subset.refl _)
        · exact Or.imp_right fun hnone => by simp [resolveArgs, hnone]
        · rintro _ ⟨arguments, harguments, rfl⟩
          refine ⟨.const ((env.consts.lookup value).getD value) :: arguments,
            by simp [resolveArgs, harguments], ?_⟩
          simp [Bindings.bind, Argument.text]

end Arguments

section Types

variable {registry : Registry} {G : Bindings → Ty → Prop} {derive : LayoutDeriver} {env : Bindings}

/-- Every layout that is asked for is derived to the layout of its instance. -/
def DerivesLayouts (registry : Registry) (G : Bindings → Ty → Prop) (derive : LayoutDeriver) : Prop :=
  ∀ i d, registry.Names G i → registry.get? i.name = some d →
    Meets registry G (registry.Broken G) (derive d (registry.bindings i) i.key)
      (fun layout => registry.layout? i = some layout) (registry.mentioned i)

theorem derives_slot {w : Codec → Codec} {outer : Ty} {inner : Option Ty} {path : String}
    (hG : G env outer) (hclosed : registry.Closed G) (hpart : ∀ ty ∈ inner, ty ∈ outer.within)
    (h : ∀ ty ∈ inner, Derives registry G derive env ty)
    (hresolve : outer.resolve registry env = (resolveSlot registry env inner).map w)
    (hinstances : ∀ ty ∈ inner, registry.instances env outer = registry.instances env ty) :
    Meets registry G (registry.Broken G)
      (do return w (← deriveSlot registry derive env path inner))
      (fun codec => outer.resolve registry env = some codec) (registry.instances env outer) := by
  cases inner with
  | none => exact meets_throw (.inr (.inl ⟨env, outer, hG, hresolve⟩))
  | some ty =>
    rw [hinstances ty rfl]
    refine (h ty rfl (hclosed.part hG (hpart ty rfl)) path).map fun codec hcodec => ?_
    rw [hresolve, resolveSlot, hcodec]
    rfl

theorem resolve_of_resolve? {length : ArrayLength} {path : String} {n : Nat}
    (h : length.resolve? env = some n) : length.resolve env path = pure n := by
  cases length with
  | value m =>
    cases h
    rfl
  | generic name =>
    rw [ArrayLength.resolve?] at h
    rw [ArrayLength.resolve, h]

theorem throw_of_resolve? {length : ArrayLength} (path : String) (h : length.resolve? env = none) :
    ∃ e, length.resolve env path = throw e := by
  cases length with
  | value m => cases h
  | generic name =>
    rw [ArrayLength.resolve?] at h
    exact ⟨.genericArrayLength name path, by rw [ArrayLength.resolve, h]⟩

theorem derives_array {inner : Option Ty} {length : ArrayLength} (hclosed : registry.Closed G)
    (h : ∀ ty ∈ inner, Derives registry G derive env ty) :
    Derives registry G derive env (.array inner length) := by
  intro hG path
  rw [Ty.derive]
  cases hn : length.resolve? env with
  | none =>
    obtain ⟨e, he⟩ := throw_of_resolve? path hn
    rw [he]
    exact meets_throw (.inr (.inl ⟨env, _, hG, by rw [Ty.resolve, hn]; rfl⟩))
  | some n =>
    rw [resolve_of_resolve? hn]
    refine derives_slot hG hclosed ?_ h (w := (Codec.array · n)) ?_ ?_
    · rintro ty rfl
      exact List.mem_cons_of_mem _ ty.self_mem_within
    · rw [Ty.resolve, hn]
      cases resolveSlot registry env inner <;> rfl
    · rintro ty rfl
      simp

theorem derives_defined (hclosed : registry.Closed G) (hd : DerivesLayouts registry G derive)
    {name : String} {args : List GenericArg}
    (h : ∀ ty, GenericArg.type ty ∈ args → Derives registry G derive env ty) :
    Derives registry G derive env (.defined name args) := by
  intro hG path
  have hargs : ∀ ty, GenericArg.type ty ∈ args → G env ty := fun ty hty =>
    hclosed.part hG (List.mem_cons_of_mem _ (mem_withinArgs.mpr ⟨ty, hty, ty.self_mem_within⟩))
  have hbroken : registry.instance? env (.defined name args) = none → registry.Broken G := fun hnone =>
    .inl ⟨env, _, hG, by rw [resolve_defined, hnone]; rfl⟩
  have hinstance := instance?_defined registry env name args
  rw [Ty.derive]
  cases hget : registry.get? name with
  | none => exact meets_throw (.inr (hbroken (by rw [hinstance, hget]; rfl)))
  | some d =>
    by_cases hlen : d.params.length = args.length
    · simp only [hget, hlen, if_true, Option.bind_eq_bind, Option.bind_some] at hinstance
      simp only [hlen, ne_eq, not_true_eq_false, if_false]
      have hbind := meets_bindArgs path name h hargs .none [] hlen
      -- the arguments are known first, then the instance itself
      have hbound := hbind.mono (C := registry.Broken G) (fun h => h.elim id fun hnone =>
        hbroken (by rw [hinstance, hnone]; rfl)) (fun _ => id) (List.Subset.refl _)
      have hknown : registry.instances env (.defined name args) ⊆ registry.argInstances env args
          ++ (registry.instance? env (.defined name args)).toList := by
        rw [instances_defined]
        exact List.append_subset.mpr ⟨List.subset_append_right _ _, List.subset_append_left _ _⟩
      refine (hbound.bind ?_).mono id (fun _ => id) hknown
      · rintro _ ⟨arguments, harguments, rfl⟩
        rw [harguments] at hinstance
        have hbindings : registry.bindings ⟨name, arguments⟩ = Bindings.none.bind d.params arguments := by
          rw [Registry.bindings, hget]
        have hi := meets_instantiate (i := ⟨name, arguments⟩) ⟨env, _, hG, hinstance⟩ hget
          (hd _ _ ⟨env, _, hG, hinstance⟩ hget)
        rw [hbindings] at hi
        refine hi.mono id ?_ (by rw [hinstance]; exact List.Subset.refl _)
        rintro _ rfl
        rw [resolve_defined, hinstance]
        rfl
    · simp only [hlen, ne_eq, not_false_eq_true, if_true]
      exact meets_throw (.inr (hbroken (by rw [hinstance, hget]; simp [hlen])))

theorem derives_type (hclosed : registry.Closed G) (hd : DerivesLayouts registry G derive) (ty : Ty) :
    Derives registry G derive env ty := by
  induction ty using Ty.induction with
  | prim p => exact fun _ _ => meets_pure rfl
  | option tag inner ih =>
    intro hG path
    rw [Ty.derive]
    refine derives_slot hG hclosed ?_ ih rfl ?_
    · rintro ty rfl
      exact List.mem_cons_of_mem _ ty.self_mem_within
    · rintro ty rfl
      simp
  | vec inner ih =>
    intro hG path
    rw [Ty.derive]
    refine derives_slot hG hclosed ?_ ih rfl ?_
    · rintro ty rfl
      exact List.mem_cons_of_mem _ ty.self_mem_within
    · rintro ty rfl
      simp
  | array inner length ih => exact derives_array hclosed ih
  | defined name args ih => exact derives_defined hclosed hd ih
  | generic name =>
    intro hG path
    rw [Ty.derive]
    cases hcodec : env.types.lookup name with
    | none => exact meets_throw (.inr (.inl ⟨env, _, hG, hcodec⟩))
    | some codec => exact meets_pure hcodec

/-- What the arguments of a reference are bound to is what the instance is that it names. -/
theorem names_of_bindArgs (hclosed : registry.Closed G) (hd : DerivesLayouts registry G derive) {name : String}
    {args : List GenericArg} {d : TypeDef} (hG : G env (.defined name args)) (hget : registry.get? name = some d)
    (hlen : d.params.length = args.length) {path : String} {result : Bindings × List String}
    {s t : DerivationState}
    (hrun : (bindArgs registry derive env path name .none [] d.params args).run s = (.ok result, t)) :
    ∃ i, registry.Names G i ∧ i.name = name ∧ result = (registry.bindings i, i.args.map Argument.text) := by
  have hargs : ∀ ty, GenericArg.type ty ∈ args → G env ty := fun ty hty =>
    hclosed.part hG (List.mem_cons_of_mem _ (mem_withinArgs.mpr ⟨ty, hty, ty.self_mem_within⟩))
  have hanswers := meets_bindArgs path name (fun ty _ => derives_type hclosed hd ty) hargs .none [] hlen
  obtain ⟨arguments, harguments, rfl⟩ := (hanswers.ok s _ t hrun).1
  have hinstance : registry.instance? env (.defined name args) = some ⟨name, arguments⟩ := by
    rw [instance?_defined, hget]
    simp [hlen, harguments]
  have hbindings : registry.bindings ⟨name, arguments⟩ = Bindings.none.bind d.params arguments := by
    rw [Registry.bindings, hget]
  exact ⟨⟨name, arguments⟩, ⟨env, _, hG, hinstance⟩, rfl, by rw [hbindings, List.nil_append]⟩

end Types

section Layouts

variable {registry : Registry} {G : Bindings → Ty → Prop} {B : Prop}
  {codecOf : String → Ty → Derivation Codec} {pureOf : Ty → Option Codec} {named : Ty → List Instance}

theorem meets_deriveFields {entries : List (String × Ty)}
    (h : ∀ entry ∈ entries, ∀ path, Meets registry G B (codecOf path entry.2)
      (fun codec => pureOf entry.2 = some codec) (named entry.2)) (path : String) :
    Meets registry G B (deriveFields codecOf path entries)
      (fun codecs => fieldCodecs? pureOf entries = some codecs) ((entries.map Prod.snd).flatMap named) := by
  induction entries with
  | nil => exact meets_pure rfl
  | cons entry rest ih =>
    obtain ⟨name, ty⟩ := entry
    refine (h _ List.mem_cons_self _).bind fun codec hcodec => ?_
    refine (ih fun entry hentry => h entry (List.mem_cons_of_mem _ hentry)).map fun codecs hcodecs => ?_
    simp [fieldCodecs?, hcodec, hcodecs]

theorem meets_deriveVariants {variants : List Variant}
    (h : ∀ ty ∈ (Body.enum variants).types, ∀ path, Meets registry G B (codecOf path ty)
      (fun codec => pureOf ty = some codec) (named ty)) (key : String) :
    Meets registry G B (deriveVariants codecOf key variants)
      (fun codecs => variantCodecs? pureOf variants = some codecs)
      ((Body.enum variants).types.flatMap named) := by
  induction variants with
  | nil => exact meets_pure rfl
  | cons v rest ih =>
    have hrest := ih fun ty hty => h ty (by
      rw [Body.types, List.flatMap_cons]
      exact List.mem_append_right _ hty)
    obtain ⟨name, _ | fields⟩ := v
    · rw [deriveVariants]
      refine hrest.map fun codecs hcodecs => ?_
      simp [variantCodecs?, hcodecs]
    · rw [deriveVariants, Body.types, List.flatMap_cons, List.flatMap_append]
      refine (meets_deriveFields (fun entry hentry => h entry.2 ?_) _).bind fun codecs hcodecs => ?_
      · rw [Body.types, List.flatMap_cons]
        exact List.mem_append_left _ (List.mem_map_of_mem hentry)
      · refine hrest.map fun variants hvariants => ?_
        simp [variantCodecs?, hcodecs, hvariants]

/-- The body of a definition; `B` must hold if it has no layout. -/
theorem meets_layout {d : TypeDef}
    (h : ∀ ty ∈ d.body.types, ∀ path, Meets registry G B (codecOf path ty)
      (fun codec => pureOf ty = some codec) (named ty))
    (hB : d.layout? pureOf = none → B) (key : String) :
    Meets registry G B (d.layout codecOf key) (fun layout => d.layout? pureOf = some layout)
      (d.body.types.flatMap named) := by
  obtain ⟨name, docs, serialization, representation, params, body⟩ := d
  dsimp only at h
  unfold TypeDef.layout
  unfold TypeDef.layout? at hB ⊢
  cases serialization
  case custom serialization => exact meets_throw (.inr (hB rfl))
  all_goals
    cases body with
    | struct fields =>
      cases fields with
      | none => exact meets_pure rfl
      | some fields =>
        refine (meets_deriveFields (fun entry hentry => h entry.2 (List.mem_map_of_mem hentry)) key).map
          fun codecs hcodecs => ?_
        simp [Body.layout?, hcodecs]
    | enum variants =>
      dsimp only at hB ⊢
      by_cases hcount : 256 < variants.length
      · simp only [hcount, if_true]
        exact meets_throw (.inr (hB (by simp [Body.layout?, hcount])))
      · simp only [hcount, if_false]
        cases hcomplex : (Body.enum variants).isComplexEnum with
        | true =>
          refine (meets_deriveVariants h key).map fun codecs hcodecs => ?_
          simp [Body.layout?, hcount, hcomplex, hcodecs]
        | false =>
          rw [types_of_not_isComplexEnum hcomplex]
          exact meets_pure (by simp [Body.layout?, hcount, hcomplex])
    | aliasOf ty =>
      have hty := (h ty List.mem_cons_self key).map (g := Layout.aliasOf)
        (R := fun layout => (pureOf ty).map Layout.aliasOf = some layout) fun codec hcodec => by
          rw [hcodec]
          rfl
      simpa [Body.types, Body.layout?] using hty

end Layouts

section Within

variable {registry : Registry} {G : Bindings → Ty → Prop}

theorem derivesLayouts_layoutWithin (hclosed : registry.Closed G) (fuel : Nat) :
    DerivesLayouts registry G (registry.layoutWithin fuel) := by
  induction fuel with
  | zero => exact fun i d _ _ => meets_throw (.inl ⟨_, rfl⟩)
  | succ fuel ih =>
    intro i d hi hd
    rw [layoutWithin, mentioned, types_eq hd, layout?_eq hd]
    refine meets_layout (fun ty hty path => ?_) (fun hnone => ?_) i.key
    · obtain ⟨env, ref, hG, href⟩ := hi
      exact derives_type hclosed ih ty (hclosed.body hG href (by rwa [types_eq hd])) path
    · exact .inr ⟨i, hi, (layout?_eq hd).trans hnone⟩

theorem derivesLayouts_deriveLayout (hclosed : registry.Closed G) :
    DerivesLayouts registry G registry.deriveLayout :=
  derivesLayouts_layoutWithin hclosed _

end Within

end WireSchema
